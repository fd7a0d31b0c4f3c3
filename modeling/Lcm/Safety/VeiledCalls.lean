import Lcm.Safety.VeiledViews

/-!
# Calls with credentials on databases that differ under seal

A call that takes credentials, made on two databases that are veiled with credentials of different
values, leaves the databases veiled and returns the same, if what it seals is within the size limit
on both sides or on neither.

* `LawfulSealing`: what is expected of encoding and sealing.
* `couple_createIssuer` and the rest: one lemma for each call.
-/

namespace Lcm

open Db Svc Authz Tx Sql
open Database (Veiled)

/-- What is expected of encoding and sealing: settings with the same fields have the same text, and
the success of sealing does not depend on the text, as long as it is not too large. -/
structure LawfulSealing (P : Platform) : Prop extends Transfer.LawfulSettings P where
  marshal_congr : ∀ a b : Settings, (∀ k, a.get? k = b.get? k) →
    P.marshalSettings a = P.marshalSettings b
  seal_alike : ∀ nonce clear clear' ad, clear.utf8ByteSize ≤ 8192 → clear'.utf8ByteSize ≤ 8192 →
    Alike (fun _ _ => True) (P.envSeal nonce clear ad) (P.envSeal nonce clear' ad)

/-- The settings are within the size limit. -/
def Settings.Fits (P : Platform) (st : Settings) : Prop :=
  ∃ text, Transfer.encodeSettings P st = .ok text

variable {P : Platform} {e : Nat → Env} {n : Nat} {R : Database → Database → Prop}

/-! ## Sealing -/

section Sealing

variable {a b st : Settings} {d : String}

/-- The blob holds the settings. -/
def SealOf (P : Platform) (ad : String) (st : Settings) (blob : Blob) : Prop :=
  0 < blob.length ∧ ∃ clear decoded, P.envOpen blob ad = some clear ∧
    P.decodeSettings clear = .ok decoded ∧ ∀ k, decoded.get? k = st.get? k

theorem sealOf_of_seal (hP : Transfer.LawfulSettings P) {text : String} {blob : Blob} {nonce : Nat}
    (hst : Transfer.encodeSettings P st = .ok text) (hblob : P.envSeal nonce text d = .ok blob) :
    SealOf P d st blob := by
  obtain ⟨hmarshal, hsize⟩ := Transfer.encodeSettings_ok.1 hst
  obtain ⟨hlen, hopen⟩ := hP.open_seal _ _ _ _ hblob
  obtain ⟨decoded, hdec, hget⟩ := hP.decode_marshal _ _ hmarshal hsize
  exact ⟨hlen, text, decoded, hopen, hdec, hget⟩

theorem SealOf.issuerSettings {j : Issuer} (h : SealOf P (Ca.adIssuer j.id) st j.settingsSealed) :
    ∃ decoded, Issue.issuerSettings P j = .ok decoded ∧ ∀ k, decoded.get? k = st.get? k := by
  obtain ⟨hlen, clear, decoded, hclear, hdec, hget⟩ := h
  refine ⟨decoded, ?_, hget⟩
  unfold Issue.issuerSettings
  rw [if_pos hlen, hclear]
  exact hdec

theorem SealOf.openValue {j : TenantSecret} (h : SealOf P (Ca.adSecret j.id) st j.valueSealed) :
    ∃ decoded, Secrets.openValue P j = .ok decoded ∧ ∀ k, decoded.get? k = st.get? k := by
  obtain ⟨-, clear, decoded, hclear, hdec, hget⟩ := h
  refine ⟨decoded, ?_, hget⟩
  unfold Secrets.openValue
  rw [hclear]
  exact hdec

theorem encodeSettings_congr (hP : LawfulSealing P) (h : ∀ k, a.get? k = b.get? k) :
    Transfer.encodeSettings P a = Transfer.encodeSettings P b := by
  unfold Transfer.encodeSettings
  rw [hP.marshal_congr a b h]

theorem alike_seal (hP : LawfulSealing P) {clear clear' : String}
    (ha : Transfer.encodeSettings P a = .ok clear) (hb : Transfer.encodeSettings P b = .ok clear')
    (nonce : Nat) :
    Alike (fun x y => SealOf P d a x ∧ SealOf P d b y) (P.envSeal nonce clear d)
      (P.envSeal nonce clear' d) := by
  have hseal := hP.seal_alike nonce clear clear' d (Transfer.encodeSettings_ok.1 ha).2
    (Transfer.encodeSettings_ok.1 hb).2
  match hx : P.envSeal nonce clear d, hy : P.envSeal nonce clear' d, hseal with
  | .ok x, .ok y, _ =>
    exact ⟨sealOf_of_seal hP.toLawfulSettings ha hx, sealOf_of_seal hP.toLawfulSettings hb hy⟩
  | .error _, .error _, hseal => exact hseal

theorem Settings.Like.congr {secret : String → Prop} {c d : Settings} (h : a.Like secret b)
    (hc : ∀ k, c.get? k = a.get? k) (hd : ∀ k, d.get? k = b.get? k) : c.Like secret d := by
  intro k
  rw [hc, hd]
  exact h k

theorem veiled_of_seals {i i' : Issuer} (hrow : i' = { i with settingsSealed := i'.settingsSealed })
    (ha : SealOf P (Ca.adIssuer i.id) a i.settingsSealed)
    (hb : SealOf P (Ca.adIssuer i.id) b i'.settingsSealed) (h : a.Like IssuerSecret b) :
    i.Veiled P i' := by
  have hid : i'.id = i.id := by rw [hrow]
  obtain ⟨x, hx, hxa⟩ := ha.issuerSettings
  rw [← hid] at hb
  obtain ⟨y, hy, hyb⟩ := hb.issuerSettings
  refine ⟨hrow, ?_⟩
  rw [hx, hy]
  exact h.congr hxa hyb

theorem secret_veiled_of_seals {r r' : TenantSecret}
    (hrow : r' = { r with valueSealed := r'.valueSealed })
    (ha : SealOf P (Ca.adSecret r.id) a r.valueSealed)
    (hb : SealOf P (Ca.adSecret r.id) b r'.valueSealed) (h : a.Like (fun _ => True) b) :
    r.Veiled P r' := by
  have hid : r'.id = r.id := by rw [hrow]
  obtain ⟨x, hx, hxa⟩ := ha.openValue
  rw [← hid] at hb
  obtain ⟨y, hy, hyb⟩ := hb.openValue
  refine ⟨hrow, ?_⟩
  rw [hx, hy]
  exact h.congr hxa hyb

theorem encodeSettings_cases (hfit : a.Fits P ↔ b.Fits P) :
    (∃ err err', Transfer.encodeSettings P a = .error err ∧
        Transfer.encodeSettings P b = .error err') ∨
      ∃ clear clear', Transfer.encodeSettings P a = .ok clear ∧
        Transfer.encodeSettings P b = .ok clear' := by
  cases ha : Transfer.encodeSettings P a with
  | ok clear =>
    obtain ⟨clear', hb⟩ := hfit.1 ⟨clear, ha⟩
    exact .inr ⟨clear, clear', rfl, hb⟩
  | error err =>
    cases hb : Transfer.encodeSettings P b with
    | error err' => exact .inl ⟨err, err', rfl, rfl⟩
    | ok clear' =>
      obtain ⟨clear, hclear⟩ := hfit.2 ⟨clear', hb⟩
      rw [ha] at hclear
      cases hclear

theorem couple_sealSettings (hP : LawfulSealing P) (h : a.Like IssuerSecret b)
    (hfit : a.Fits P ↔ b.Fits P) (id : Id) :
    Couple e R R
      (fun x y => x.2 = y.2 ∧ SealOf P (Ca.adIssuer id) a x.1 ∧ SealOf P (Ca.adIssuer id) b y.1)
      (Issue.sealSettings P id a) (Issue.sealSettings P id b) n := by
  unfold Issue.sealSettings
  rcases encodeSettings_cases hfit with ⟨err, err', ha, hb⟩ | ⟨clear, clear', ha, hb⟩
  · rw [ha, hb]
    exact couple_fail _
  rw [ha, hb]
  refine (couple_askExcept (alike_seal hP ha hb _)).seq ?_
  rintro k x y ⟨hx, hy⟩
  rw [encodeSettings_congr hP (h.get?_redact fun _ hk => hk)]
  refine (couple_ofExcept (alike_eq_iff.2 rfl)).seq ?_
  rintro k shown _ rfl
  exact couple_pure ⟨rfl, hx, hy⟩

theorem couple_sealValue (hP : LawfulSealing P) (hfit : a.Fits P ↔ b.Fits P) (id : Id) :
    Couple e R R (fun x y => SealOf P (Ca.adSecret id) a x ∧ SealOf P (Ca.adSecret id) b y)
      (Secrets.sealValue P id a) (Secrets.sealValue P id b) n := by
  unfold Secrets.sealValue
  rcases encodeSettings_cases hfit with ⟨err, err', ha, hb⟩ | ⟨clear, clear', ha, hb⟩
  · rw [ha, hb]
    exact couple_fail _
  rw [ha, hb]
  refine couple_askExcept ?_
  have hseal := alike_seal (d := Ca.adSecret id) hP ha hb (e n).nonce
  generalize P.envSeal (e n).nonce clear (Ca.adSecret id) = x at hseal ⊢
  generalize P.envSeal (e n).nonce clear' (Ca.adSecret id) = y at hseal ⊢
  match x, y, hseal with
  | .ok x, .ok y, hseal => exact hseal
  | .error err, .error _, rfl => cases err <;> exact rfl

theorem couple_sealConfig (hP : LawfulSealing P) (h : a.Like TargetSecret b)
    (hfit : a.Fits P ↔ b.Fits P) (id : Id) :
    Couple e R R (fun x y => x.length > 0 ↔ y.length > 0) (Deploy.sealConfig P id a)
      (Deploy.sealConfig P id b) n := by
  unfold Deploy.sealConfig
  rw [Deploy.hasSecret_eq h]
  refine couple_ite Iff.rfl (fun _ => ?_) fun _ => couple_pure Iff.rfl
  rcases encodeSettings_cases hfit with ⟨err, err', ha, hb⟩ | ⟨clear, clear', ha, hb⟩
  · rw [ha, hb]
    exact couple_fail _
  rw [ha, hb]
  refine couple_askExcept ((alike_seal hP ha hb _).mono ?_)
  exact fun x y hxy => iff_of_true hxy.1.1 hxy.2.1

end Sealing

/-! ## The CA of a new issuer -/

theorem blind_generate (t : Id) (td : String) : Blind R (Ca.generate P t td) := by
  refine (Tx.blind_draw _).bind fun id => (Tx.blind_ask _).bind fun key => ?_
  refine (Tx.blind_ask _).bind fun random => (Tx.blind_ofExcept _).bind fun x => ?_
  obtain ⟨priv, serial⟩ := x
  dsimp only
  split
  · exact blind_fail _
  refine (Tx.blind_ask _).bind fun now => (Tx.blind_draw _).bind fun nonce => ?_
  refine (Tx.blind_ofExcept _).bind fun der => (Tx.blind_ofExcept _).bind fun keyDER => ?_
  exact (Tx.blind_draw _).bind fun nonce => (Tx.blind_ofExcept _).bind fun blob => Tx.blind_pure _

theorem blind_ensureTx (t : Id) (td : String) :
    Blind (Veiled P) (Ca.ensureTx P t td) := by
  refine (blind_caByState t td .active).attempt.bind fun r => ?_
  unfold Ca.ensureOr
  split
  · exact blind_pure _
  · refine (blind_generate t td).bind fun fresh => ?_
    refine (blind_insertCA fresh).attempt.bind fun r => ?_
    unfold Ca.wonOr
    split
    · exact blind_pure _
    split
    · exact blind_caByState t td .active
    · exact blind_fail _
  · exact blind_fail _

theorem blind_anchorCA (t : Id) (type : IssuerType) (td : String) :
    Blind (Veiled P) (Issue.anchorCA P t type td) := by
  unfold Issue.anchorCA Ca.ensureCA
  split
  · refine Blind.bind (blind_ite (blind_fail _) ?_) fun _ => blind_pure _
    refine (blind_fetch (blind_caByState t td .active)).attempt.bind fun r => ?_
    split
    · exact blind_pure _
    · exact fun _ _ => couple_repo (fun _ _ => rfl) (blind_ensureTx t td)
    · exact blind_fail _
  · exact blind_pure _

/-! ## Issuers -/

section Issuers

variable {i i' : Issuer} {a b : Settings}

theorem twin_nameTaken {m m' : Sql Unit} (hm : Twin R Eq m m') :
    Twin R Eq (Issue.nameTaken m) (Issue.nameTaken m') := by
  refine hm.attempt.bind ?_
  intro r r' hr
  obtain rfl := alike_eq_iff.1 hr
  cases r with
  | ok _ => exact twin_pure rfl
  | error err =>
    dsimp only
    split
    · exact twin_fail _
    · exact twin_fail _

theorem blind_grantOwner (t : Id) (type : ResourceType) (id : Id) (u : String) :
    Blind (Veiled P) (grantOwner t type id u) := by
  unfold grantOwner
  split
  · exact blind_pure _
  · exact (blind_draw _).bind fun _ => (blind_upsertGrant _).bind fun _ => blind_pure _

theorem twin_createTx (subj : Subjects) (hi : i.Veiled P i') :
    Twin (Veiled P) Eq (Issue.createTx P subj i) (Issue.createTx P subj i') := by
  obtain ⟨b, rfl⟩ : ∃ b, i' = { i with settingsSealed := b } := ⟨_, hi.1⟩
  have hrest := (twin_nameTaken (twin_insertIssuer hi)).bind fun _ _ _ =>
    blind_grantOwner (P := P) i.tenantID .issuer i.id subj.userID
  unfold Issue.createTx
  split
  · exact Twin.bind (blind_clearDefaultIssuer _ _ _) fun _ _ _ => hrest
  · exact hrest

theorem twin_updateTx (wasDefault : Bool) (hi : i.Veiled P i') :
    Twin (Veiled P) Eq (Issue.updateTx P wasDefault i)
      (Issue.updateTx P wasDefault i') := by
  obtain ⟨b, rfl⟩ : ∃ b, i' = { i with settingsSealed := b } := ⟨_, hi.1⟩
  have hupdate := twin_nameTaken (twin_updateIssuer hi)
  unfold Issue.updateTx
  split
  · exact Twin.bind (blind_clearDefaultIssuer _ _ _) fun _ _ _ => hupdate
  · exact hupdate

/-- The settings of a new issuer, with the account key generated for it. -/
def keyedSettings (P : Platform) (i : Env) (type : IssuerType) (settings : Settings) : Settings :=
  if type = .acme ∧ settings.str "acme_account_key" = "" then
    match i.key.map (Issue.encodeKey P) with
    | some (.ok pemKey) => settings.set "acme_account_key" (.str pemKey)
    | _ => settings
  else settings

theorem like_keyedSettings (h : a.Like IssuerSecret b) (i : Env) (type : IssuerType) :
    (keyedSettings P i type a).Like IssuerSecret (keyedSettings P i type b) := by
  unfold keyedSettings
  simp only [h.str_eq_empty_iff "acme_account_key"]
  split
  · split
    · exact h.set _ _
    · exact h
  · exact h

theorem couple_generateKey : Couple e R R (fun k k' => k = k' ∧ (e n).key = some k)
    Issue.generateKey Issue.generateKey n := by
  refine (couple_ask (V := fun x y => x = y ∧ (e n).key = x) ⟨rfl, rfl⟩ rfl).seq ?_
  rintro k key _ ⟨rfl, hkey⟩
  cases key with
  | none => exact couple_fail _
  | some key => exact couple_pure ⟨rfl, hkey⟩

theorem couple_newSettings (h : a.Like IssuerSecret b) (type : IssuerType) :
    Couple e R R
      (fun x y => x = keyedSettings P (e n) type a ∧ y = keyedSettings P (e n) type b)
      (Issue.newSettings P type a) (Issue.newSettings P type b) n := by
  unfold Issue.newSettings Issue.ensureACMEAccountKey
  by_cases htype : type = .acme
  · rw [if_pos htype, if_pos htype]
    refine couple_ite (not_congr (h.str_eq_empty_iff _)) (fun hkey => ?_) fun hkey => ?_
    · have hkey' : b.str "acme_account_key" ≠ "" := mt (h.str_eq_empty_iff _).2 hkey
      refine couple_pure ⟨?_, ?_⟩
      · rw [keyedSettings, if_neg fun hk => hkey hk.2]
      · rw [keyedSettings, if_neg fun hk => hkey' hk.2]
    have hempty : a.str "acme_account_key" = "" := not_not.1 hkey
    have hempty' : b.str "acme_account_key" = "" := (h.str_eq_empty_iff _).1 hempty
    unfold keyedSettings
    rw [if_pos ⟨htype, hempty⟩, if_pos ⟨htype, hempty'⟩]
    refine couple_generateKey.seq ?_
    rintro k key _ ⟨rfl, hkey⟩
    rw [hkey]
    refine (couple_ofExcept (V := fun x y => x = y ∧ Issue.encodeKey P key = .ok x) ?_).seq ?_
    · cases hpem : Issue.encodeKey P key with
      | ok pemKey => exact ⟨rfl, rfl⟩
      | error err => exact rfl
    rintro k pemKey _ ⟨rfl, hpem⟩
    rw [Option.map_some, hpem]
    exact couple_pure ⟨rfl, rfl⟩
  · rw [if_neg htype, if_neg htype]
    refine couple_pure ⟨?_, ?_⟩
    · rw [keyedSettings, if_neg fun hk => htype hk.1]
    · rw [keyedSettings, if_neg fun hk => htype hk.1]

theorem issuerType?_of_validate {input : IssuerInput} {type : IssuerType}
    (h : Issue.validate input = .ok type) : Issue.issuerType? input.type = some type := by
  unfold Issue.validate at h
  split at h
  · cases h
  split at h
  · cases h
  rename_i type' htype
  split at h
  · cases h
  split at h
  · cases h
  split at h
  · cases h
  · cases h
    exact htype

theorem couple_createIssuer (hP : LawfulSealing P) (subj : Subjects) (input : IssuerInput)
    (h : input.settings.Like IssuerSecret b)
    (hfit : ∀ type, Issue.issuerType? input.type = some type →
      ((keyedSettings P (e n) type input.settings).Fits P ↔ (keyedSettings P (e n) type b).Fits P)) :
    Couple e (Veiled P) (Veiled P) Eq (Issue.createIssuer P subj input)
      (Issue.createIssuer P subj { input with settings := b }) n := by
  have hvalid : Alike Eq (Issue.validate input) (Issue.validate { input with settings := b }) :=
    alike_eq_iff.2 rfl
  refine couple_ofExcept_seq hvalid ?_
  rintro type _ htype rfl
  refine (couple_newSettings h type).seq ?_
  rintro k _ _ ⟨rfl, rfl⟩
  refine couple_newID.seq ?_
  rintro k id _ rfl
  have hlike := like_keyedSettings (P := P) h (e n) type
  refine (couple_sealSettings hP hlike (hfit type (issuerType?_of_validate htype)) id).seq ?_
  rintro k ⟨blob, shown⟩ ⟨blob', _⟩ ⟨rfl, hblob, hblob'⟩
  refine (blind_anchorCA subj.tenantID type input.trustDomain e k).seq ?_
  rintro k caID _ rfl
  have hrow : (Issue.newIssuer subj input id type caID blob shown).Veiled P
      (Issue.newIssuer subj { input with settings := b } id type caID blob' shown) :=
    veiled_of_seals rfl hblob hblob' hlike
  refine Couple.seq (couple_repo ?_ (twin_createTx subj hrow)) fun k _ _ _ => ?_
  · exact fun _ _ => rfl
  exact (couple_emit _).seq fun k _ _ _ => blind_getIssuer subj id e k

theorem like_storedSettings (hi : i.Veiled P i') :
    (Issue.storedSettings P i).Like IssuerSecret (Issue.storedSettings P i') := by
  have hopen := hi.2
  unfold Issue.storedSettings
  generalize Issue.issuerSettings P i = x at hopen ⊢
  generalize Issue.issuerSettings P i' = y at hopen ⊢
  match x, y, hopen with
  | .ok x, .ok y, hopen => exact hopen
  | .error err, .error _, rfl => exact Settings.Like.refl _

theorem couple_updateIssuer (hP : LawfulSealing P) (subj : Subjects) (id : Id) (input : IssuerInput)
    (h : input.settings.Like IssuerSecret b) (s s' : Database)
    (hfit : ∀ row row',
      ((s.issuers.get? id).filter fun i => i.tenantID == subj.tenantID) = some row →
      ((s'.issuers.get? id).filter fun i => i.tenantID == subj.tenantID) = some row' →
      (((Issue.storedSettings P row).merge input.settings Transfer.issuerSecretFields).Fits P ↔
        ((Issue.storedSettings P row').merge b Transfer.issuerSecretFields).Fits P)) :
    Couple e (fun t t' => t.Veiled P t' ∧ t = s ∧ t' = s') (Veiled P) Eq
      (Issue.updateIssuer P subj id input)
      (Issue.updateIssuer P subj id { input with settings := b }) n := by
  refine ((blind_check subj .issuer id .write e n).frame (quiet_check _ _ _ _)
    (quiet_check _ _ _ _) s s').bind (fun _ _ ht => ht.1) fun k _ _ _ => ?_
  refine (couple_fetch (twin_getRow_at (fun _ _ ht => ht.issuers) (fun _ _ hi => hi.id_eq)
    (fun _ _ h => by rw [h.1]) subj.tenantID id s s')).bind
    (fun _ _ ht => ht.1) ?_
  rintro k row row' ⟨hrow, hs, hs'⟩
  refine Couple.weaken (fun _ _ ht => ht.1) (fun _ _ ht => ht) (fun _ _ hv => hv) ?_
  obtain rfl : row.id = id := Table.get?_key (Option.filter_eq_some_iff.1 hs).1
  obtain ⟨old, rfl⟩ : ∃ old, row' = { row with settingsSealed := old } := ⟨_, hrow.1⟩
  have hstored := (like_storedSettings hrow).merge h Transfer.issuerSecretFields
  refine couple_ite Iff.rfl (fun _ => couple_fail _) fun _ => ?_
  refine couple_ofExcept_seq (V := Eq) (alike_eq_iff.2 rfl) fun _ _ _ _ => ?_
  refine (couple_sealSettings hP hstored (hfit row _ hs hs') row.id).seq ?_
  rintro k ⟨blob, shown⟩ ⟨blob', _⟩ ⟨rfl, hblob, hblob'⟩
  have hnew : (Issue.IssuerInput.apply input subj row blob shown).Veiled P
      (Issue.IssuerInput.apply { input with settings := b } subj _ blob' shown) :=
    veiled_of_seals rfl hblob hblob' hstored
  refine Couple.seq (couple_repo ?_ (twin_updateTx row.isDefault hnew)) fun k _ _ _ => ?_
  · exact fun _ _ => rfl
  exact (couple_emit _).seq fun k _ _ _ => blind_getIssuer subj row.id e k

end Issuers

/-! ## Tenant secrets -/

section Secrets

variable {r r' : TenantSecret} {a b : Settings}

theorem couple_write {m m' : Sql Unit} {f : Err → Err} (hm : Twin R Eq m m') :
    Couple e R R Eq
      (do match ← attempt (repo (fun _ => .writeCredentials) m) with
        | .ok () => pure ()
        | .error e => fail (f e))
      (do match ← attempt (repo (fun _ => .writeCredentials) m') with
        | .ok () => pure ()
        | .error e => fail (f e)) n := by
  refine (couple_repo (fun _ _ => rfl) hm).attempt.seq ?_
  intro k x y hxy
  obtain rfl := alike_eq_iff.1 hxy
  cases x with
  | ok _ => exact couple_pure rfl
  | error err => exact couple_fail _

variable (hP : LawfulSealing P) (subj : Subjects)

include hP

theorem couple_insertSecret (name : String)
    (kind : SecretKind) (h : a.Like (fun _ => True) b) (hfit : a.Fits P ↔ b.Fits P) :
    Couple e (Veiled P) (Veiled P) Eq (Secrets.insert P subj name kind a)
      (Secrets.insert P subj name kind b) n := by
  refine couple_newID.seq ?_
  rintro k id _ rfl
  refine (couple_sealValue hP hfit id).seq ?_
  rintro k blob blob' ⟨hblob, hblob'⟩
  have hrow : TenantSecret.Veiled P
      ⟨id, subj.tenantID, name, kind, blob, some subj.actorID, some subj.actorID⟩
      ⟨id, subj.tenantID, name, kind, blob', some subj.actorID, some subj.actorID⟩ :=
    secret_veiled_of_seals rfl hblob hblob' h
  refine (couple_write (twin_insertSecret hrow)).seq fun k _ _ _ => ?_
  exact (couple_emit _).seq fun k _ _ _ => blind_getSecret subj id e k

theorem couple_createSecret (input : Secrets.Input)
    (h : input.value.Like (fun _ => True) b) (hfit : input.value.Fits P ↔ b.Fits P) :
    Couple e (Veiled P) (Veiled P) Eq (Secrets.create P subj input)
      (Secrets.create P subj { input with value := b }) n := by
  refine couple_ite Iff.rfl (fun _ => couple_fail _) fun _ => ?_
  cases Secrets.secretKind? input.kind with
  | none => exact couple_fail _
  | some kind =>
    refine couple_ite h.length_eq_zero_iff (fun _ => couple_fail _) fun _ => ?_
    refine (couple_fetch (twin_secretByName subj.tenantID input.name)).attempt.seq ?_
    intro k x y hxy
    match x, y, hxy with
    | .ok _, .ok _, _ => exact couple_fail _
    | .error err, .error _, rfl =>
      cases err with
      | notFound => exact couple_insertSecret hP subj input.name kind h hfit
      | _ => exact couple_fail _

theorem couple_replace (type : AuditType)
    (hr : r.Veiled P r') (h : a.Like (fun _ => True) b) (hfit : a.Fits P ↔ b.Fits P) :
    Couple e (Veiled P) (Veiled P) Eq (Secrets.replace P subj type r a)
      (Secrets.replace P subj type r' b) n := by
  obtain ⟨hr', -⟩ := hr
  generalize r'.valueSealed = old at hr'
  subst hr'
  refine (couple_sealValue hP hfit r.id).seq ?_
  rintro k blob blob' ⟨hblob, hblob'⟩
  have hrow : TenantSecret.Veiled P
      { r with valueSealed := blob, updatedBy := some subj.actorID }
      { r with valueSealed := blob', updatedBy := some subj.actorID } :=
    secret_veiled_of_seals rfl hblob hblob' h
  refine (couple_write (twin_updateSecret hrow)).seq fun k _ _ _ => ?_
  exact (couple_emit _).seq fun k _ _ _ => blind_getSecret subj r.id e k

theorem couple_updateSecret (id : Id)
    (input : Secrets.Input) (h : input.value.Like (fun _ => True) b) (s s' : Database)
    (hfit : ∀ row row' stored stored',
      ((s.secrets.get? id).filter fun r => r.tenantID == subj.tenantID) = some row →
      ((s'.secrets.get? id).filter fun r => r.tenantID == subj.tenantID) = some row' →
      Secrets.openValue P row = .ok stored → Secrets.openValue P row' = .ok stored' →
      ((Secrets.merged stored input.value).Fits P ↔ (Secrets.merged stored' b).Fits P)) :
    Couple e (fun t t' => t.Veiled P t' ∧ t = s ∧ t' = s') (Veiled P) Eq
      (Secrets.update P subj id input) (Secrets.update P subj id { input with value := b }) n := by
  refine couple_ite Iff.rfl (fun _ => ?_) fun _ => ?_
  · exact Couple.weaken (fun _ _ ht => ht.1) (fun _ _ ht => ht) (fun _ _ hv => hv) (couple_fail _)
  refine (couple_fetch (twin_getRow_at (fun _ _ ht => ht.secrets) (fun _ _ hr => hr.id_eq)
    (fun _ _ h => by rw [h.1]) subj.tenantID id s s')).bind
    (fun _ _ ht => ht.1) ?_
  rintro k row row' ⟨hrow, hs, hs'⟩
  refine Couple.weaken (fun _ _ ht => ht.1) (fun _ _ ht => ht) (fun _ _ hv => hv) ?_
  have hopen := hrow.2
  match hx : Secrets.openValue P row, hy : Secrets.openValue P row', hopen with
  | .error err, .error _, rfl => exact couple_fail _
  | .ok stored, .ok stored', hopen =>
    have hmerged := Secrets.like_merged hopen h
    refine couple_ofExcept_seq (V := fun x y => x = stored ∧ y = stored') ⟨rfl, rfl⟩ ?_
    rintro x y - ⟨hxs, hys⟩
    rw [hxs, hys]
    refine couple_ite hmerged.length_eq_zero_iff (fun _ => couple_fail _) fun _ => ?_
    refine couple_replace hP subj .secretUpdated ?_ hmerged
      (hfit row row' stored stored' hs hs' hx hy)
    refine ⟨?_, hrow.2⟩
    rw [hrow.1]

theorem couple_rotateSecret (id : Id)
    (h : a.Like (fun _ => True) b) (hfit : a.Fits P ↔ b.Fits P) :
    Couple e (Veiled P) (Veiled P) Eq (Secrets.rotate P subj id a)
      (Secrets.rotate P subj id b) n := by
  refine couple_ite h.length_eq_zero_iff (fun _ => couple_fail _) fun _ => ?_
  refine (couple_fetch (twin_getSecret subj.tenantID id)).seq fun k row row' hrow => ?_
  exact couple_replace hP subj .secretRotated hrow h hfit

end Secrets

/-! ## Webhooks and targets -/

/-- The secrets are the same text, or both set. -/
def SecretLike (x y : String) : Prop :=
  x = y ∨ (x ≠ "" ∧ x ≠ Settings.marker) ∧ y ≠ "" ∧ y ≠ Settings.marker

theorem couple_createWebhook (hP : LawfulSealing P) (subj : Subjects) (input : Webhook.Input)
    {secret : String} (h : SecretLike input.secret secret) (hfit : input.secret.utf8ByteSize ≤ 8192)
    (hfit' : secret.utf8ByteSize ≤ 8192) :
    Couple e (Veiled P) (Veiled P) Eq (Webhook.create P subj input)
      (Webhook.create P subj { input with secret }) n := by
  refine couple_ite Iff.rfl (fun _ => couple_fail _) fun _ => ?_
  refine (couple_ofExcept (V := Eq) (alike_eq_iff.2 rfl)).seq fun k _ _ _ => ?_
  refine couple_ite Iff.rfl (fun _ => couple_fail _) fun _ => ?_
  refine (couple_ofExcept (V := Eq) (alike_eq_iff.2 rfl)).seq ?_
  rintro k events _ rfl
  -- the secrets that are sealed: the same one, or the two that were sent
  have hsecret : Couple e (Veiled P) (Veiled P)
      (fun x y => x = y ∨ x.utf8ByteSize ≤ 8192 ∧ y.utf8ByteSize ≤ 8192)
      (Webhook.signingSecret input.secret) (Webhook.signingSecret secret) k := by
    rcases h with h | ⟨⟨hx, -⟩, hy, -⟩
    · rw [← h]
      refine couple_ite Iff.rfl (fun _ => ?_) fun _ => couple_pure (.inl rfl)
      exact couple_ask (.inl rfl) rfl
    unfold Webhook.signingSecret
    rw [if_neg hx, if_neg hy]
    exact couple_pure (.inr ⟨hfit, hfit'⟩)
  refine hsecret.seq fun k x y hxy => ?_
  refine couple_newID.seq ?_
  rintro k id _ rfl
  refine (couple_askExcept (V := fun _ _ => True) ?_).seq fun k blob blob' _ => ?_
  · rcases hxy with rfl | ⟨hx, hy⟩
    · exact Alike.refl (fun _ => trivial) _
    · exact hP.seal_alike _ _ _ _ hx hy
  have hrow : (Webhook.newEndpoint subj input id events blob).Veiled
      (Webhook.newEndpoint subj { input with secret } id events blob') := rfl
  refine (couple_write (twin_insertWebhook hrow)).seq fun k _ _ _ => ?_
  refine (couple_emit _).seq fun k _ _ _ => ?_
  exact (couple_fetch (twin_getWebhook _ _)).seq fun k row row' h =>
    couple_pure (Webhook.view_eq h)

theorem couple_createTarget (hP : LawfulSealing P) (subj : Subjects) (input : Deploy.TargetInput)
    {b : Settings} (h : input.config.Like TargetSecret b) (hfit : input.config.Fits P ↔ b.Fits P) :
    Couple e (Veiled P) (Veiled P) Eq (Deploy.createTarget P subj input)
      (Deploy.createTarget P subj { input with config := b }) n := by
  refine couple_ite Iff.rfl (fun _ => couple_fail _) fun _ => ?_
  refine couple_ite Iff.rfl (fun _ => couple_fail _) fun _ => ?_
  refine couple_newID.seq ?_
  rintro k id _ rfl
  refine couple_now.seq ?_
  rintro k now _ rfl
  have hpublic : Deploy.publicConfig P input.config = Deploy.publicConfig P b := by
    unfold Deploy.publicConfig
    rw [encodeSettings_congr hP (h.get?_publicPart fun _ hk => hk)]
  refine couple_ofExcept_seq (V := Eq) (alike_eq_iff.2 hpublic) ?_
  rintro shown _ - rfl
  refine (couple_sealConfig hP h hfit id).seq fun k blob blob' hblob => ?_
  have hrow : (Deploy.newTarget subj input id now shown blob).Veiled
      (Deploy.newTarget subj { input with config := b } id now shown blob') := ⟨rfl, hblob⟩
  refine (couple_repo (fun _ _ => rfl) (twin_insertTarget hrow)).seq fun k _ _ _ => ?_
  exact (couple_emit _).seq fun k _ _ _ => couple_pure (Deploy.view_eq hrow)

end Lcm
