import Lcm.Deploy
import Lcm.Service.Twin
import Lcm.Webhook

/-!
# Databases that differ under seal

* `Settings.Like`: settings that differ in the values of credentials only, each set in both.
* `Database.Veiled`: databases that differ in sealed columns only, where what is under seal differs
  in the values of credentials only.
* The statements of the repository keep databases veiled, and find the same in both, up to the
  sealed columns.
-/

namespace Lcm

open Db Svc List Tx Table

/-! ## Settings -/

variable {v : Option SettingValue} {α : Type} {db db' : Database} {i i' : Issuer}
  {r r' : TenantSecret}

namespace Settings

/-- The field is a credential that is set: a text, neither empty nor the marker. -/
def IsCredential (v : Option SettingValue) : Prop :=
  ∃ t, v = some (.str t) ∧ t ≠ "" ∧ t ≠ marker

/-- The settings differ only in the values of credentials, which are set in both. -/
def Like (secret : String → Prop) (a b : Settings) : Prop :=
  ∀ k, a.get? k = b.get? k ∨ secret k ∧ IsCredential (a.get? k) ∧ IsCredential (b.get? k)

variable {secret : String → Prop} {a b c d : Settings} {fs : List String}

theorem Like.refl (a : Settings) : Like secret a a := fun _ => .inl rfl

theorem redactValue_credential (h : IsCredential v) : redactValue v = some (.str marker) := by
  obtain ⟨t, rfl, ht, -⟩ := h
  exact if_neg ht

theorem Like.get?_redact (hsecret : ∀ k, secret k → k ∈ fs) (h : Like secret a b) (k : String) :
    (a.redact fs).get? k = (b.redact fs).get? k := by
  rw [Settings.get?_redact, Settings.get?_redact]
  rcases h k with hk | ⟨hs, ha, hb⟩
  · rw [hk]
  · rw [if_pos (hsecret k hs), if_pos (hsecret k hs), redactValue_credential ha,
      redactValue_credential hb]

theorem Like.get?_publicPart (hsecret : ∀ k, secret k → k ∈ fs) (h : Like secret a b)
    (k : String) : (a.publicPart fs).get? k = (b.publicPart fs).get? k := by
  rw [Settings.get?_publicPart, Settings.get?_publicPart]
  rcases h k with hk | ⟨hs, -, -⟩
  · rw [hk]
  · rw [if_pos (hsecret k hs), if_pos (hsecret k hs)]

theorem mergeValue_credential {old : Option SettingValue} (h : IsCredential v) :
    mergeValue old v = v := by
  obtain ⟨t, rfl, ht, hm⟩ := h
  exact (if_neg hm).trans (if_neg ht)

theorem like_mergeValue {p : Prop} {old old' v' : Option SettingValue}
    (hold : old = old' ∨ p ∧ IsCredential old ∧ IsCredential old')
    (hv : v = v' ∨ p ∧ IsCredential v ∧ IsCredential v') :
    mergeValue old v = mergeValue old' v' ∨
      p ∧ IsCredential (mergeValue old v) ∧ IsCredential (mergeValue old' v') := by
  rcases hv with rfl | ⟨hp, hv, hv'⟩
  · match v with
    | none => exact hold
    | some (.json _) => exact .inl rfl
    | some (.str t) =>
      unfold mergeValue
      dsimp only
      by_cases hm : t = marker
      · rw [if_pos hm, if_pos hm]
        exact hold
      · rw [if_neg hm, if_neg hm]
        exact .inl rfl
  · rw [mergeValue_credential hv, mergeValue_credential hv']
    exact .inr ⟨hp, hv, hv'⟩

theorem Like.merge (hstored : Like secret a b) (hincoming : Like secret c d) (fs : List String) :
    Like secret (a.merge c fs) (b.merge d fs) := by
  intro k
  rw [get?_merge, get?_merge]
  by_cases hk : k ∈ fs
  · rw [if_pos hk, if_pos hk]
    exact like_mergeValue (hstored k) (hincoming k)
  · rw [if_neg hk, if_neg hk]
    exact hincoming k

theorem Like.length_eq_zero_iff (h : Like secret a b) :
    a.fields.length = 0 ↔ b.fields.length = 0 := by
  have hnone : ∀ k, a.get? k = none ↔ b.get? k = none := by
    intro k
    rcases h k with hk | ⟨-, ⟨t, ht, -⟩, t', ht', -⟩
    · rw [hk]
    · simp [ht, ht']
  rw [Settings.length_eq_zero_iff, Settings.length_eq_zero_iff]
  exact forall_congr' hnone

theorem Like.str (h : Like secret a b) (k : String) :
    a.str k = b.str k ∨ (a.str k ≠ "" ∧ a.str k ≠ marker) ∧ b.str k ≠ "" ∧ b.str k ≠ marker := by
  rcases h k with hk | ⟨-, ⟨t, ht, hset⟩, t', ht', hset'⟩
  · left
    unfold Settings.str
    rw [hk]
  right
  unfold Settings.str
  rw [ht, ht']
  exact ⟨hset, hset'⟩

theorem Like.str_eq_empty_iff (h : Like secret a b) (k : String) : a.str k = "" ↔ b.str k = "" := by
  rcases h.str k with hk | ⟨⟨ha, -⟩, hb, -⟩
  · rw [hk]
  · exact iff_of_false ha hb

theorem Like.set (h : Like secret a b) (f : String) (v : SettingValue) :
    Like secret (a.set f v) (b.set f v) := by
  intro k
  rw [get?_set, get?_set]
  split
  · exact .inl rfl
  · exact h k

end Settings

theorem Secrets.get?_merged (stored incoming : Settings) (k : String) :
    (Secrets.merged stored incoming).get? k =
      Settings.mergeValue (stored.get? k) (incoming.get? k) := by
  have hkeys : ∀ s : Settings, k ∉ s.fields.map Prod.fst → s.get? k = none := by
    intro s hs
    unfold Settings.get?
    rw [find?_eq_none.2, Option.map_none]
    intro x hx hk
    exact hs (mem_map.2 ⟨x, hx, by simpa using hk⟩)
  unfold Secrets.merged
  rw [Settings.get?_merge]
  split
  · rfl
  rename_i hk
  unfold Secrets.keysUnion at hk
  rw [mem_eraseDups, mem_append, not_or] at hk
  rw [hkeys _ hk.1, hkeys _ hk.2]
  rfl

theorem Secrets.like_merged {a b c d : Settings} (hstored : Settings.Like (fun _ => True) a b)
    (hincoming : Settings.Like (fun _ => True) c d) :
    Settings.Like (fun _ => True) (Secrets.merged a c) (Secrets.merged b d) := by
  intro k
  rw [Secrets.get?_merged, Secrets.get?_merged]
  exact Settings.like_mergeValue (hstored k) (hincoming k)

/-- The field of an issuer's settings is a credential. -/
def IssuerSecret (k : String) : Prop := k ∈ Transfer.issuerSecretFields

/-- The field of a target's configuration is a credential. -/
def TargetSecret (k : String) : Prop := k ∈ Deploy.targetSecretFields

theorem Deploy.hasSecret_eq {a b : Settings} (h : a.Like TargetSecret b) :
    Deploy.hasSecret a Deploy.targetSecretFields = Deploy.hasSecret b Deploy.targetSecretFields := by
  unfold Deploy.hasSecret
  congr 1
  funext f
  rcases h.str f with hf | ⟨⟨ha, ha'⟩, hb, hb'⟩
  · rw [hf]
  · rw [bne_iff_ne.2 ha, bne_iff_ne.2 ha', bne_iff_ne.2 hb, bne_iff_ne.2 hb']

/-! ## Rows -/

section Rows

variable (P : Platform)

/-- The issuers differ only in the values of sealed credentials. -/
def Issuer.Veiled (i i' : Issuer) : Prop :=
  i' = { i with settingsSealed := i'.settingsSealed } ∧
    Alike (Settings.Like IssuerSecret) (Issue.issuerSettings P i) (Issue.issuerSettings P i')

/-- The secrets differ only in the values of sealed fields. -/
def TenantSecret.Veiled (r r' : TenantSecret) : Prop :=
  r' = { r with valueSealed := r'.valueSealed } ∧
    Alike (Settings.Like fun _ => True) (Secrets.openValue P r) (Secrets.openValue P r')

/-- The endpoints differ only in the sealed secret. -/
def WebhookEndpoint.Veiled (w w' : WebhookEndpoint) : Prop :=
  w' = { w with secretSealed := w'.secretSealed }

/-- The targets differ only in what is sealed, if anything is. -/
def DeploymentTarget.Veiled (t t' : DeploymentTarget) : Prop :=
  t' = { t with configSealed := t'.configSealed } ∧
    (t.configSealed.length > 0 ↔ t'.configSealed.length > 0)

/-- The databases differ only in sealed columns, and under seal only in the values of
credentials. -/
structure Database.Veiled (s s' : Database) : Prop where
  issuers : Twin (Issuer.Veiled P) s.issuers s'.issuers
  secrets : Twin (TenantSecret.Veiled P) s.secrets s'.secrets
  webhooks : Twin WebhookEndpoint.Veiled s.webhooks s'.webhooks
  targets : Twin DeploymentTarget.Veiled s.targets s'.targets
  cas : s.cas = s'.cas
  requests : s.requests = s'.requests
  jobs : s.jobs = s'.jobs
  certificates : s.certificates = s'.certificates
  revocations : s.revocations = s'.revocations
  grants : s.grants = s'.grants
  certLog : s.certLog = s'.certLog

theorem Database.Veiled.refl (s : Database) : s.Veiled P s where
  issuers := Twin.refl (fun _ => ⟨rfl, Alike.refl Settings.Like.refl _⟩) _
  secrets := Twin.refl (fun _ => ⟨rfl, Alike.refl Settings.Like.refl _⟩) _
  webhooks := Twin.refl (fun w => show w.Veiled w from rfl) _
  targets := Twin.refl (fun _ => ⟨rfl, Iff.rfl⟩) _
  cas := rfl
  requests := rfl
  jobs := rfl
  certificates := rfl
  revocations := rfl
  grants := rfl
  certLog := rfl

variable {P} {i i' : Issuer} {r r' : TenantSecret} {w w' : WebhookEndpoint}
  {t t' : DeploymentTarget}

theorem Issuer.Veiled.id_eq (h : i.Veiled P i') : i.id = i'.id := by rw [h.1]

theorem TenantSecret.Veiled.id_eq (h : r.Veiled P r') : r.id = r'.id := by rw [h.1]

theorem WebhookEndpoint.Veiled.id_eq (h : w.Veiled w') : w.id = w'.id := by rw [h]

theorem DeploymentTarget.Veiled.id_eq (h : t.Veiled t') : t.id = t'.id := by rw [h.1]

end Rows

/-! ## Statements -/

theorem alike_found {β : Type} {V : α → β → Prop} {o : Option α} {o' : Option β}
    (h : Option.Rel V o o') : Alike V (found o) (found o') := by
  cases h with
  | some hv => exact hv
  | none => exact rfl

theorem rel_filter {A : α → α → Prop} {p : α → Bool} {o o' : Option α}
    (hp : ∀ x y, A x y → p x = p y) (h : Option.Rel A o o') :
    Option.Rel A (o.filter p) (o'.filter p) := by
  cases h with
  | none => exact .none
  | some hv =>
    rw [Option.filter_some, Option.filter_some, hp _ _ hv]
    split
    · exact .some hv
    · exact .none

namespace Sql

open Database (Veiled)

section Rows

variable {ρ : Type} {key : ρ → Id} {get : Database → Table key}
  {set : Database → Table key → Database} {tenant : ρ → Id} {A : ρ → ρ → Prop}
  {R : Database → Database → Prop}

theorem twin_checked {ok : Bool} {m m' : Sql Unit} (hm : Twin R Eq m m') :
    Twin R Eq (checked ok m) (checked ok m') := by
  unfold checked
  split
  · exact hm
  · exact twin_stmt fun _ _ _ => rfl

theorem twin_insertRow {violates violates' : Database → Bool} {err : Err} {r r' : ρ}
    (hget : ∀ db db', R db db' → Twin A (get db) (get db'))
    (hset : ∀ db db' t t', R db db' → Twin A t t' → R (set db t) (set db' t'))
    (hkey : ∀ x y, A x y → key x = key y)
    (hv : ∀ db db', R db db' → violates db = violates' db') (hr : A r r') :
    Twin R Eq (insertRow get set violates err r) (insertRow get set violates' err r') := by
  refine twin_stmt fun db db' hdb => ?_
  rw [← hv db db' hdb]
  split
  · exact rfl
  have hins := (hget db db' hdb).insert? hkey hr
  generalize (get db).insert? r = o at hins ⊢
  generalize (get db').insert? r' = o' at hins ⊢
  cases hins with
  | none => exact rfl
  | some ht => exact ⟨hset db db' _ _ hdb ht, rfl⟩

variable (hget : ∀ db db', R db db' → Twin A (get db) (get db'))
  (hkey : ∀ x y, A x y → key x = key y) (htenant : ∀ x y, A x y → tenant x = tenant y)
  (tenantID id : Id)

include hget hkey htenant

theorem twin_getRow :
    Twin R A
      (query fun db => found (((get db).get? id).filter fun r => tenant r == tenantID) : Sql ρ)
      (query fun db => found (((get db).get? id).filter fun r => tenant r == tenantID)) := by
  refine twin_query fun db db' hdb => alike_found ?_
  exact rel_filter (fun x y hxy => by rw [htenant x y hxy]) ((hget db db' hdb).get? hkey id)

theorem twin_getRow_at (s s' : Database) :
    Twin (fun t t' => R t t' ∧ t = s ∧ t' = s')
      (fun x y => A x y ∧ ((get s).get? id).filter (fun r => tenant r == tenantID) = some x ∧
        ((get s').get? id).filter (fun r => tenant r == tenantID) = some y)
      (query fun db => found (((get db).get? id).filter fun r => tenant r == tenantID) : Sql ρ)
      (query fun db => found (((get db).get? id).filter fun r => tenant r == tenantID)) := by
  refine twin_query ?_
  rintro db db' ⟨hdb, rfl, rfl⟩
  have hrow := rel_filter (p := fun r => tenant r == tenantID)
    (fun x y hxy => by rw [htenant x y hxy]) ((hget db db' hdb).get? hkey id)
  generalize ((get db).get? id).filter _ = o at hrow ⊢
  generalize ((get db').get? id).filter _ = o' at hrow ⊢
  cases hrow with
  | none => exact rfl
  | some hxy => exact ⟨hxy, rfl, rfl⟩

end Rows

variable {P : Platform}

/-! ### Tables that are the same -/

theorem blind_getCertificate (t id : Id) : Blind (Veiled P) (getCertificate t id) := by
  refine blind_query fun db db' h => ?_
  unfold Database.certificate?
  rw [h.certificates]

theorem blind_listCertificates (t : Id) (f : CertificateFilter) :
    Blind (Veiled P) (listCertificates t f) :=
  blind_query fun db db' h => by rw [h.certificates]

theorem blind_grantsOnResource (t : Id) (type : ResourceType) (id : Id) :
    Blind (Veiled P) (grantsOnResource t type id) :=
  (Tx.blind_ask _).bind fun _ => Tx.blind_query fun db db' h => by rw [h.grants]

theorem blind_caByState (t : Id) (td : String) (st : CAState) :
    Blind (Veiled P) (caByState t td st) :=
  (Tx.blind_ask _).bind fun _ => Tx.blind_query fun db db' h => by rw [h.cas]

theorem blind_insertCA (c : CA) : Tx.Blind (Veiled P) (insertCA c) := by
  refine (Tx.blind_ask _).bind fun now => ?_
  refine twin_checked (twin_insertRow (A := Eq) ?_ ?_ (fun _ _ h => h ▸ rfl) ?_ rfl)
  · intro db db' h
    rw [h.cas]
    exact Twin.refl (fun _ => rfl) _
  · intro db db' t t' h ht
    exact { h with cas := eq_of_twin ht }
  intro db db' h
  unfold caClash
  rw [h.cas]

theorem blind_upsertGrant (g : Grant) : Tx.Blind (Veiled P) (upsertGrant g) := by
  refine (Tx.blind_ask _).bind fun now => Tx.twin_stmt fun db db' h => ?_
  rw [← h.grants]
  split
  · exact ⟨{ h with grants := rfl }, rfl⟩
  split
  · exact rfl
  · exact ⟨{ h with grants := rfl }, rfl⟩

/-! ### Issuers -/

theorem certificateCount_eq (h : db.Veiled P db') (t id : Id) :
    certificateCount db t id = certificateCount db' t id := by
  unfold certificateCount
  rw [h.certificates]

theorem twin_getIssuer (t id : Id) :
    Twin (Veiled P) (Issuer.Veiled P) (getIssuer t id) (getIssuer t id) :=
  twin_getRow (fun _ _ h => h.issuers) (fun _ _ h => h.id_eq)
    (fun _ _ h => by rw [h.1]) t id

/-- The rows differ under seal only, and have as many certificates. -/
def CountedAlike (P : Platform) (x y : Issuer × Nat) : Prop := x.1.Veiled P y.1 ∧ x.2 = y.2

theorem twin_countedIssuer (t id : Id) :
    Twin (Veiled P) (CountedAlike P) (countedIssuer t id) (countedIssuer t id) := by
  refine twin_query fun db db' h => ?_
  have hrow := rel_filter (p := fun i : Issuer => i.tenantID == t)
    (fun x y hxy => by rw [hxy.1])
    (h.issuers.get? (fun _ _ h => h.id_eq) id)
  generalize (db.issuers.get? id).filter _ = o at hrow ⊢
  generalize (db'.issuers.get? id).filter _ = o' at hrow ⊢
  cases hrow with
  | none => exact rfl
  | some hv => exact ⟨hv, by rw [h.certificates]⟩

theorem forall₂_issuersAfter (h : db.Veiled P db') (t : Id) (after : String) (limit : Nat) :
    List.Forall₂ (Issuer.Veiled P)
      ((sortRows (NameBefore P Issuer.name Issuer.id) (db.issuers.rows.filter fun i =>
        i.tenantID == t && P.sqlLess (P.sqlLower after) (P.sqlLower i.name))).take limit)
      ((sortRows (NameBefore P Issuer.name Issuer.id) (db'.issuers.rows.filter fun i =>
        i.tenantID == t && P.sqlLess (P.sqlLower after) (P.sqlLower i.name))).take limit) := by
  refine forall₂_take limit (forall₂_insertionSort ?_ (forall₂_filter ?_ h.issuers))
  · intro x y hxy x' y' hxy'
    rw [hxy.1, hxy'.1]
    rfl
  · intro x y hxy
    rw [hxy.1]

theorem twin_listIssuers (t : Id) (after : String) (limit : Nat) :
    Twin (Veiled P) (List.Forall₂ (Issuer.Veiled P)) (listIssuers P t after limit)
      (listIssuers P t after limit) :=
  twin_query fun _ _ h => forall₂_issuersAfter h t after limit

theorem forall₂_counted (h : db.Veiled P db') (t : Id) {l l' : List Issuer}
    (hl : List.Forall₂ (Issuer.Veiled P) l l') :
    List.Forall₂ (CountedAlike P) (l.map fun i => (i, certificateCount db t i.id))
      (l'.map fun i => (i, certificateCount db' t i.id)) := by
  refine forall₂_map_left_iff.2 (forall₂_map_right_iff.2 (hl.imp ?_))
  intro x y hxy
  refine ⟨hxy, ?_⟩
  show certificateCount db t x.id = certificateCount db' t y.id
  rw [certificateCount_eq h, hxy.id_eq]

theorem twin_listCountedIssuers (t : Id) (after : String) (limit : Nat) :
    Twin (Veiled P) (List.Forall₂ (CountedAlike P))
      (listCountedIssuers P t after limit) (listCountedIssuers P t after limit) :=
  twin_query fun _ _ h => forall₂_counted h t (forall₂_issuersAfter h t after limit)

theorem issuerClash_eq (hi : i.Veiled P i') (h : db.Veiled P db') :
    issuerClash P i db = issuerClash P i' db' := by
  rw [hi.1]
  unfold issuerClash
  rw [h.cas]
  congr 1
  refine forall₂_any ?_ h.issuers
  intro x y hxy
  rw [hxy.1]

theorem twin_insertIssuer (hi : i.Veiled P i') :
    Twin (Veiled P) Eq (insertIssuer P i) (insertIssuer P i') := by
  obtain ⟨b, rfl⟩ : ∃ b, i' = { i with settingsSealed := b } := ⟨_, hi.1⟩
  exact twin_checked (twin_insertRow (fun _ _ h => h.issuers)
    (fun db db' t t' h ht => { h with issuers := ht }) (fun _ _ h => h.id_eq)
    (fun _ _ h => issuerClash_eq hi h) ⟨rfl, hi.2⟩)

theorem veiled_write {x y : Issuer} (hi : i.Veiled P i') (hxy : x.Veiled P y) (hid : x.id = i.id) :
    (i.write x).Veiled P (i'.write y) := by
  refine ⟨?_, ?_⟩
  · rw [hi.1, hxy.1]
    rfl
  have hopen : ∀ j old : Issuer, old.id = j.id →
      Issue.issuerSettings P (j.write old) = Issue.issuerSettings P j := by
    intro j old h
    unfold Issue.issuerSettings Issuer.write
    rw [h]
  rw [hopen i x hid, hopen i' y ((hxy.id_eq.symm.trans hid).trans hi.id_eq)]
  exact hi.2

theorem twin_updateIssuer (hi : i.Veiled P i') :
    Twin (Veiled P) Eq (updateIssuer P i) (updateIssuer P i') := by
  obtain ⟨b, rfl⟩ : ∃ b, i' = { i with settingsSealed := b } := ⟨_, hi.1⟩
  refine twin_stmt fun db db' h => ?_
  have hrow := rel_filter (p := fun o : Issuer => o.tenantID == i.tenantID)
    (fun x y hxy => by rw [hxy.1]) (h.issuers.get? (fun _ _ h => h.id_eq) i.id)
  rw [← issuerClash_eq hi h,
    show issuerChecks { i with settingsSealed := b } = issuerChecks i from rfl]
  generalize (db.issuers.get? i.id).filter _ = o at hrow ⊢
  generalize (db'.issuers.get? i.id).filter _ = o' at hrow ⊢
  cases hrow with
  | none => exact rfl
  | some _ =>
    dsimp only
    split
    · exact rfl
    split
    · exact rfl
    have ht : Twin (Issuer.Veiled P)
        (db.issuers.update i.id i.write fun _ => rfl)
        (db'.issuers.update i.id (Issuer.write _) fun _ => rfl) :=
      h.issuers.update (fun _ _ h => h.id_eq) fun x y hxy hid => veiled_write hi hxy hid
    exact ⟨{ h with issuers := ht }, rfl⟩

theorem blind_clearDefaultIssuer (t : Id) (td : String) (id : Id) :
    Blind (Veiled P) (clearDefaultIssuer t td id) := by
  refine twin_stmt fun db db' h => ?_
  suffices ht : Twin (Issuer.Veiled P)
      (db.issuers.map (undefault t td id) (undefault_id t td id))
      (db'.issuers.map (undefault t td id) (undefault_id t td id)) from
    ⟨{ h with issuers := ht }, rfl⟩
  refine Twin.map (fun x y hxy => ?_) h.issuers
  have hopen : ∀ j : Issuer, Issue.issuerSettings P (undefault t td id j) =
      Issue.issuerSettings P j := by
    intro j
    unfold undefault
    split <;> rfl
  refine ⟨?_, ?_⟩
  · rw [hxy.1]
    unfold undefault
    split <;> rfl
  · rw [hopen, hopen]
    exact hxy.2

/-! ### Tenant secrets -/

theorem twin_getSecret (t id : Id) :
    Twin (Veiled P) (TenantSecret.Veiled P) (getSecret t id) (getSecret t id) :=
  twin_getRow (fun _ _ h => h.secrets) (fun _ _ h => h.id_eq)
    (fun _ _ h => by rw [h.1]) t id

theorem twin_secretByName (t : Id) (name : String) :
    Twin (Veiled P) (TenantSecret.Veiled P) (secretByName P t name)
      (secretByName P t name) := by
  refine twin_query fun db db' h => alike_found (forall₂_find? ?_ h.secrets)
  intro x y hxy
  rw [hxy.1]

theorem secretClash_eq (hr : r.Veiled P r') (h : db.Veiled P db') :
    secretClash P r db = secretClash P r' db' := by
  rw [hr.1]
  refine forall₂_any (fun x y hxy => ?_) h.secrets
  rw [hxy.1]

theorem twin_insertSecret (hr : r.Veiled P r') :
    Twin (Veiled P) Eq (insertSecret P r) (insertSecret P r') := by
  obtain ⟨b, rfl⟩ : ∃ b, r' = { r with valueSealed := b } := ⟨_, hr.1⟩
  exact twin_checked (twin_insertRow (fun _ _ h => h.secrets)
    (fun db db' t t' h ht => { h with secrets := ht }) (fun _ _ h => h.id_eq)
    (fun _ _ h => secretClash_eq hr h) ⟨rfl, hr.2⟩)

theorem twin_updateSecret (hr : r.Veiled P r') :
    Twin (Veiled P) Eq (updateSecret P r) (updateSecret P r') := by
  obtain ⟨b, rfl⟩ : ∃ b, r' = { r with valueSealed := b } := ⟨_, hr.1⟩
  refine twin_stmt fun db db' h => ?_
  have hrow := rel_filter (p := fun o : TenantSecret => o.tenantID == r.tenantID)
    (fun x y hxy => by rw [hxy.1]) (h.secrets.get? (fun _ _ h => h.id_eq) r.id)
  rw [← secretClash_eq hr h]
  generalize (db.secrets.get? r.id).filter _ = o at hrow ⊢
  generalize (db'.secrets.get? r.id).filter _ = o' at hrow ⊢
  cases hrow with
  | none => exact rfl
  | some _ =>
    dsimp only
    split
    · exact rfl
    split
    · exact rfl
    suffices ht : Twin (TenantSecret.Veiled P)
        (db.secrets.update r.id r.write fun _ => rfl)
        (db'.secrets.update r.id (TenantSecret.write _) fun _ => rfl) from
      ⟨{ h with secrets := ht }, rfl⟩
    refine h.secrets.update (fun _ _ h => h.id_eq) fun x y hxy hid => ?_
    refine ⟨?_, ?_⟩
    · rw [hxy.1]
      rfl
    have hopen : ∀ j old : TenantSecret, old.id = j.id →
        Secrets.openValue P (j.write old) = Secrets.openValue P j := by
      intro j old h
      unfold Secrets.openValue TenantSecret.write
      rw [h]
    rw [hopen r x hid, hopen { r with valueSealed := b } y (hxy.id_eq.symm.trans hid)]
    exact hr.2

/-! ### Listings by name -/

theorem twin_listByName {ρ : Type} {key : ρ → Id} {get : Database → Table key} {tenant : ρ → Id}
    {name : ρ → String} {A : ρ → ρ → Prop}
    (hget : ∀ db db', db.Veiled P db' → Twin A (get db) (get db'))
    (hkey : ∀ x y, A x y → key x = key y) (hname : ∀ x y, A x y → name x = name y)
    (htenant : ∀ x y, A x y → tenant x = tenant y) (t : Id) :
    Twin (Veiled P) (List.Forall₂ A) (listByName P get tenant name t)
      (listByName P get tenant name t) := by
  refine twin_query fun db db' h => ?_
  refine forall₂_take 1000 (forall₂_insertionSort ?_ (forall₂_filter ?_ (hget db db' h)))
  · intro x y hxy x' y' hxy'
    unfold NameBefore
    rw [hkey x y hxy, hkey x' y' hxy', hname x y hxy, hname x' y' hxy']
  · intro x y hxy
    rw [htenant x y hxy]

theorem twin_listSecrets (t : Id) :
    Twin (Veiled P) (List.Forall₂ (TenantSecret.Veiled P)) (listSecrets P t)
      (listSecrets P t) :=
  twin_listByName (fun _ _ h => h.secrets) (fun _ _ h => h.id_eq)
    (fun _ _ h => by rw [h.1])
    (fun _ _ h => by rw [h.1]) t

theorem twin_listWebhooks (t : Id) :
    Twin (Veiled P) (List.Forall₂ WebhookEndpoint.Veiled) (listWebhooks P t)
      (listWebhooks P t) :=
  twin_listByName (fun _ _ h => h.webhooks) (fun _ _ h => h.id_eq)
    (fun _ _ h => by rw [h])
    (fun _ _ h => by rw [h]) t

theorem twin_listTargets (t : Id) :
    Twin (Veiled P) (List.Forall₂ DeploymentTarget.Veiled) (listTargets P t)
      (listTargets P t) :=
  twin_listByName (fun _ _ h => h.targets) (fun _ _ h => h.id_eq)
    (fun _ _ h => by rw [h.1])
    (fun _ _ h => by rw [h.1]) t

/-! ### Webhooks and targets -/

theorem twin_getWebhook (t id : Id) :
    Twin (Veiled P) WebhookEndpoint.Veiled (getWebhook t id) (getWebhook t id) :=
  twin_getRow (fun _ _ h => h.webhooks) (fun _ _ h => h.id_eq)
    (fun _ _ h => by rw [h]) t id

theorem twin_insertWebhook {w w' : WebhookEndpoint} (hw : w.Veiled w') :
    Twin (Veiled P) Eq (insertWebhook P w) (insertWebhook P w') := by
  obtain ⟨b, rfl⟩ : ∃ b, w' = { w with secretSealed := b } := ⟨_, hw⟩
  refine Twin.bind (twin_ask (V := Eq) fun _ => rfl) ?_
  rintro now _ rfl
  refine twin_checked (twin_insertRow (fun _ _ h => h.webhooks)
    (fun db db' t t' h ht => { h with webhooks := ht }) (fun _ _ h => h.id_eq) ?_ rfl)
  intro db db' h
  refine forall₂_any (fun x y hxy => ?_) h.webhooks
  rw [hxy]

theorem twin_getTarget (t id : Id) :
    Twin (Veiled P) DeploymentTarget.Veiled (getTarget t id) (getTarget t id) :=
  twin_getRow (fun _ _ h => h.targets) (fun _ _ h => h.id_eq)
    (fun _ _ h => by rw [h.1]) t id

theorem twin_insertTarget {x x' : DeploymentTarget} (hx : x.Veiled x') :
    Twin (Veiled P) Eq (insertTarget P x) (insertTarget P x') := by
  obtain ⟨b, rfl⟩ : ∃ b, x' = { x with configSealed := b } := ⟨_, hx.1⟩
  refine Twin.bind (twin_ask (V := Eq) fun _ => rfl) ?_
  rintro now _ rfl
  refine twin_checked (twin_insertRow (fun _ _ h => h.targets)
    (fun db db' t t' h ht => { h with targets := ht }) (fun _ _ h => h.id_eq) ?_ ⟨rfl, hx.2⟩)
  intro db db' h
  refine forall₂_any (fun y z hyz => ?_) h.targets
  rw [hyz.1]

end Sql

end Lcm
