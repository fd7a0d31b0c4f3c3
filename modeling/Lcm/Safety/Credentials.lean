import Lcm.Safety.VeiledCalls
import Lcm.System

/-!
# What clients see of credentials

Issuers, tenant secrets, webhooks and deployment targets are created and updated with credentials.
Two runs of the same calls that differ in the values of credentials only leave databases that
differ under seal only (`Database.Veiled`), and every view, list page and backup without
credentials is read the same from both (`blind_read`).

The size limit is on what is sealed, and an update seals the stored credentials along with the
settings that are sent. The runs agree when the settings that are sealed are within the limit in
both, or in neither.
-/

namespace Lcm

open Db Svc List Database

variable {P : Platform} {e : Nat → Env}

/-! ## Runs -/

inductive CredentialCall where
  | createIssuer (subj : Subjects) (input : IssuerInput)
  | updateIssuer (subj : Subjects) (id : Id) (input : IssuerInput)
  | createSecret (subj : Subjects) (input : Secrets.Input)
  | updateSecret (subj : Subjects) (id : Id) (input : Secrets.Input)
  | rotateSecret (subj : Subjects) (id : Id) (value : Settings)
  | createWebhook (subj : Subjects) (input : Webhook.Input)
  | createTarget (subj : Subjects) (input : Deploy.TargetInput)

/-- The view such a call returns. -/
inductive Answer where
  | issuer (v : IssuerView)
  | secret (v : Secrets.View)
  | webhook (v : Webhook.View)
  | target (v : Deploy.TargetView)
deriving DecidableEq

namespace CredentialCall

def body (P : Platform) : CredentialCall → Svc Answer
  | createIssuer subj input => Issue.createIssuer P subj input >>= fun v => pure (.issuer v)
  | updateIssuer subj id input => Issue.updateIssuer P subj id input >>= fun v => pure (.issuer v)
  | createSecret subj input => Secrets.create P subj input >>= fun v => pure (.secret v)
  | updateSecret subj id input => Secrets.update P subj id input >>= fun v => pure (.secret v)
  | rotateSecret subj id value => Secrets.rotate P subj id value >>= fun v => pure (.secret v)
  | createWebhook subj input => Webhook.create P subj input >>= fun v => pure (.webhook v)
  | createTarget subj input => Deploy.createTarget P subj input >>= fun v => pure (.target v)

/-- The calls are the same but for the values of credentials, which are set in both, and what is
sent is within the size limit in both. -/
inductive Like (P : Platform) : CredentialCall → CredentialCall → Prop
  | createIssuer {subj : Subjects} {input : IssuerInput} {settings : Settings}
      (h : input.settings.Like IssuerSecret settings) (hfit : input.settings.Fits P)
      (hfit' : settings.Fits P) :
      Like P (createIssuer subj input) (createIssuer subj { input with settings })
  | updateIssuer {subj : Subjects} {id : Id} {input : IssuerInput} {settings : Settings}
      (h : input.settings.Like IssuerSecret settings) (hfit : input.settings.Fits P)
      (hfit' : settings.Fits P) :
      Like P (updateIssuer subj id input) (updateIssuer subj id { input with settings })
  | createSecret {subj : Subjects} {input : Secrets.Input} {value : Settings}
      (h : input.value.Like (fun _ => True) value) (hfit : input.value.Fits P)
      (hfit' : value.Fits P) :
      Like P (createSecret subj input) (createSecret subj { input with value })
  | updateSecret {subj : Subjects} {id : Id} {input : Secrets.Input} {value : Settings}
      (h : input.value.Like (fun _ => True) value) (hfit : input.value.Fits P)
      (hfit' : value.Fits P) :
      Like P (updateSecret subj id input) (updateSecret subj id { input with value })
  | rotateSecret {subj : Subjects} {id : Id} {value value' : Settings}
      (h : value.Like (fun _ => True) value') (hfit : value.Fits P) (hfit' : value'.Fits P) :
      Like P (rotateSecret subj id value) (rotateSecret subj id value')
  | createWebhook {subj : Subjects} {input : Webhook.Input} {secret : String}
      (h : SecretLike input.secret secret) (hfit : input.secret.utf8ByteSize ≤ 8192)
      (hfit' : secret.utf8ByteSize ≤ 8192) :
      Like P (createWebhook subj input) (createWebhook subj { input with secret })
  | createTarget {subj : Subjects} {input : Deploy.TargetInput} {config : Settings}
      (h : input.config.Like TargetSecret config) (hfit : input.config.Fits P)
      (hfit' : config.Fits P) :
      Like P (createTarget subj input) (createTarget subj { input with config })

/-- The settings the call puts under seal besides those that are sent: an account key is generated
for a new ACME issuer, and an update keeps stored credentials. -/
def seals (P : Platform) (i : Env) (s : Database) : CredentialCall → Option Settings
  | createIssuer _ input =>
    (Issue.issuerType? input.type).map fun type => keyedSettings P i type input.settings
  | updateIssuer subj id input =>
    ((s.issuers.get? id).filter fun row => row.tenantID == subj.tenantID).map fun row =>
      (Issue.storedSettings P row).merge input.settings Transfer.issuerSecretFields
  | updateSecret subj id input =>
    ((s.secrets.get? id).filter fun row => row.tenantID == subj.tenantID).bind fun row =>
      match Secrets.openValue P row with
      | .ok stored => some (Secrets.merged stored input.value)
      | .error _ => none
  | createSecret _ _ | rotateSecret _ _ _ | createWebhook _ _ | createTarget _ _ => none

/-- They are within the size limit. -/
def SealsFit (P : Platform) (i : Env) (s : Database) (c : CredentialCall) : Prop :=
  ∀ st, c.seals P i s = some st → st.Fits P

end CredentialCall

theorem couple_body (hP : LawfulSealing P) {c c' : CredentialCall} (h : c.Like P c')
    (s s' : Database) (hfit : c.SealsFit P (e 0) s ↔ c'.SealsFit P (e 0) s') :
    Couple e (fun t t' => t.Veiled P t' ∧ t = s ∧ t' = s') (Veiled P) Eq (c.body P)
      (c'.body P) 0 := by
  have hwrap : ∀ {α : Type} {m m' : Svc α} (f : α → Answer),
      Couple e (fun t t' => t.Veiled P t' ∧ t = s ∧ t' = s') (Veiled P) Eq m m' 0 →
      Couple e (fun t t' => t.Veiled P t' ∧ t = s ∧ t' = s') (Veiled P) Eq
        (m >>= fun v => pure (f v)) (m' >>= fun v => pure (f v)) 0 := by
    intro α m m' f hm
    refine hm.bind (fun _ _ ht => ht) ?_
    rintro k v _ rfl
    exact couple_pure rfl
  have hdrop : ∀ {α : Type} {m m' : Svc α},
      Couple e (Veiled P) (Veiled P) Eq m m' 0 →
      Couple e (fun t t' => t.Veiled P t' ∧ t = s ∧ t' = s') (Veiled P) Eq m m' 0 :=
    fun hm => hm.weaken (fun _ _ ht => ht.1) (fun _ _ ht => ht) (fun _ _ hv => hv)
  cases h with
  | createIssuer h _ _ =>
    refine hwrap _ (hdrop (couple_createIssuer hP _ _ h fun type htype => ?_))
    unfold CredentialCall.SealsFit CredentialCall.seals at hfit
    simpa [htype] using hfit
  | updateIssuer h _ _ =>
    refine hwrap _ (couple_updateIssuer hP _ _ _ h s s' fun row row' hrow hrow' => ?_)
    unfold CredentialCall.SealsFit CredentialCall.seals at hfit
    simpa [hrow, hrow'] using hfit
  | createSecret h hx hy => exact hwrap _ (hdrop (couple_createSecret hP _ _ h (iff_of_true hx hy)))
  | updateSecret h _ _ =>
    refine hwrap _ (couple_updateSecret hP _ _ _ h s s' ?_)
    intro row row' stored stored' hrow hrow' hopen hopen'
    unfold CredentialCall.SealsFit CredentialCall.seals at hfit
    simpa [hrow, hrow', hopen, hopen'] using hfit
  | rotateSecret h hx hy => exact hwrap _ (hdrop (couple_rotateSecret hP _ _ h (iff_of_true hx hy)))
  | createWebhook h hx hy => exact hwrap _ (hdrop (couple_createWebhook hP _ _ h hx hy))
  | createTarget h hx hy => exact hwrap _ (hdrop (couple_createTarget hP _ _ h (iff_of_true hx hy)))

/-- A call, with the choices of the world for its steps. -/
structure CredentialTurn where
  call : CredentialCall
  env : Nat → Env

namespace CredentialTurn

/-- The turns differ in the values of credentials only. -/
def Like (P : Platform) (x y : CredentialTurn) : Prop := x.env = y.env ∧ x.call.Like P y.call

/-- The database after the call. -/
def perform (P : Platform) (s : Database) (x : CredentialTurn) : Database :=
  ((x.call.body P).run.exec x.env 0 s []).1

/-- The database after the calls, one after the other. -/
def performAll (P : Platform) (s : Database) (xs : List CredentialTurn) : Database :=
  xs.foldl (perform P) s

/-- What the calls return. -/
def answers (P : Platform) : Database → List CredentialTurn → List (Except Err Answer)
  | _, [] => []
  | s, x :: xs => outcome (x.call.body P) x.env s :: answers P (perform P s x) xs

/-- What the calls leave in the audit log. -/
def auditTrail (P : Platform) : Database → List CredentialTurn → List AuditEvent
  | _, [] => []
  | s, x :: xs =>
    ((x.call.body P).run.exec x.env 0 s []).2.1.filterMap Ev.audited ++
      auditTrail P (perform P s x) xs

/-- At each call of the two runs, what is put under seal is within the size limit in both or in
neither. -/
def SealAlike (P : Platform) : Database → Database → List CredentialTurn → List CredentialTurn → Prop
  | s, s', x :: xs, y :: ys =>
    (x.call.SealsFit P (x.env 0) s ↔ y.call.SealsFit P (y.env 0) s') ∧
      SealAlike P (perform P s x) (perform P s' y) xs ys
  | _, _, _, _ => True

theorem veiled_performAll (hP : LawfulSealing P) {xs ys : List CredentialTurn}
    (h : List.Forall₂ (Like P) xs ys) {s s' : Database} (hs : s.Veiled P s')
    (hfit : SealAlike P s s' xs ys) :
    (performAll P s xs).Veiled P (performAll P s' ys) ∧ answers P s xs = answers P s' ys ∧
      auditTrail P s xs = auditTrail P s' ys := by
  induction h generalizing s s' with
  | nil => exact ⟨hs, rfl, rfl⟩
  | @cons x y xs ys hxy _ ih =>
    obtain ⟨henv, hcall⟩ := hxy
    obtain ⟨hseal, hrest⟩ := hfit
    rw [← henv] at hseal
    obtain ⟨hpost, haudit, hanswer⟩ :=
      (couple_body hP hcall s s' hseal).exec ⟨hs, rfl, rfl⟩
    have hpost' : (perform P s x).Veiled P (perform P s' y) := by
      unfold perform
      rw [← henv]
      exact hpost
    obtain ⟨hall, hanswers, htrail⟩ := ih hpost' hrest
    refine ⟨hall, ?_, ?_⟩
    · unfold answers
      rw [hanswers, ← henv, alike_eq_iff.1 hanswer]
    · unfold auditTrail
      rw [htrail, ← henv, haudit]

end CredentialTurn

open CredentialTurn

/-- As long as what is put under seal is within the size limit in both runs or in neither, the calls
return and record the same, and everything that is read afterwards is the same. -/
theorem credentials_unseen (P : Platform) (hP : LawfulSealing P) (xs ys : List CredentialTurn)
    (h : List.Forall₂ (CredentialTurn.Like P) xs ys) (s : Database) (hfit : SealAlike P s s xs ys) :
    answers P s xs = answers P s ys ∧ auditTrail P s xs = auditTrail P s ys ∧
      ∀ (v : View) (i : Nat → Env),
        outcome (v.read P) i (performAll P s xs) = outcome (v.read P) i (performAll P s ys) := by
  obtain ⟨hveiled, hanswers, htrail⟩ := veiled_performAll hP h (Veiled.refl P s) hfit
  refine ⟨hanswers, htrail, fun v i => ?_⟩
  exact alike_eq_iff.1 ((blind_read v i 0).exec hveiled).2.2

/-! ## A secret that is created and renamed -/

section Sample

open Lcm.Sample

namespace Sample

def charBytes (c : Char) : Blob :=
  [(c.toNat / 65536).toUInt8, (c.toNat / 256).toUInt8, c.toNat.toUInt8]

def ofBytes : Blob → List Char
  | x :: y :: z :: rest => Char.ofNat (x.toNat * 65536 + y.toNat * 256 + z.toNat) :: ofBytes rest
  | _ => []

def valueOf (text : String) : Settings := ⟨[("a", .str text)]⟩

/-- A platform that encodes settings with the field `a` only, as its text. -/
def coder : Platform :=
  { platform with
    marshalSettings := fun st =>
      match st.fields.all fun f => f.1 == "a", st.get? "a" with
      | true, some (.str text) => .ok text
      | _, _ => .error (.external "json")
    decodeSettings := fun text => .ok (valueOf text)
    envSeal := fun _ clear _ => .ok (1 :: clear.toList.flatMap charBytes)
    envOpen := fun blob _ => some (String.ofList (ofBytes (blob.drop 1))) }

end Sample

theorem ofBytes_flatMap (l : List Char) : ofBytes (l.flatMap charBytes) = l := by
  induction l with
  | nil => rfl
  | cons c l ih =>
    have hlt : c.toNat < 1114112 := by
      have := c.valid
      unfold Char.toNat
      rcases this with h | h
      · omega
      · exact h.2
    show Char.ofNat _ :: ofBytes (l.flatMap charBytes) = c :: l
    rw [ih]
    congr 1
    have hsum : (c.toNat / 65536).toUInt8.toNat * 65536 + (c.toNat / 256).toUInt8.toNat * 256 +
        c.toNat.toUInt8.toNat = c.toNat := by
      simp only [Nat.toUInt8, UInt8.toNat_ofNat']
      omega
    rw [hsum, Char.ofNat_toNat]

theorem all_keys_iff (st : Settings) (p : String → Bool) :
    (st.fields.all fun f => p f.1) = true ↔ ∀ k, (st.get? k).isSome → p k = true := by
  rw [all_eq_true]
  constructor
  · intro h k hk
    obtain ⟨v, hv⟩ := Option.isSome_iff_exists.1 hk
    obtain ⟨f, hf, -⟩ := Option.map_eq_some_iff.1 hv
    have hfk : f.1 = k := by simpa using find?_some hf
    rw [← hfk]
    exact h f (mem_of_find?_eq_some hf)
  intro h f hf
  refine h f.1 ?_
  unfold Settings.get?
  rw [Option.isSome_map, find?_isSome]
  exact ⟨f, hf, by simp⟩

theorem get?_valueOf (text k : String) :
    (valueOf text).get? k = if k = "a" then some (.str text) else none := by
  by_cases hk : k = "a"
  · simp [valueOf, Settings.get?, hk]
  · have hne : ¬ "a" = k := fun h => hk h.symm
    simp [valueOf, Settings.get?, hk, hne]

theorem lawful_coder : LawfulSealing coder where
  open_seal := by
    intro nonce clear ad blob h
    cases h
    refine ⟨Nat.succ_pos _, ?_⟩
    show some (String.ofList (ofBytes (clear.toList.flatMap charBytes))) = some clear
    rw [ofBytes_flatMap, String.ofList_toList]
  decode_marshal := by
    intro st text h _
    refine ⟨_, rfl, fun k => ?_⟩
    dsimp only [coder] at h
    split at h
    · next hkeys hget =>
      cases h
      rw [get?_valueOf]
      split
      · next hk => rw [hk, hget]
      rename_i hk
      -- no other key has a value
      refine (Option.not_isSome_iff_eq_none.1 fun hsome => hk ?_).symm
      simpa using (all_keys_iff st (· == "a")).1 hkeys k hsome
    · cases h
  marshal_congr := by
    intro st st' h
    have hkeys : (st.fields.all fun f => f.1 == "a") = st'.fields.all fun f => f.1 == "a" := by
      rw [Bool.eq_iff_iff, all_keys_iff st (· == "a"), all_keys_iff st' (· == "a")]
      simp only [h]
    dsimp only [coder]
    rw [hkeys, h "a"]
  seal_alike := fun _ _ _ _ _ _ => trivial

namespace Sample

def createTurn (text : String) : CredentialTurn :=
  ⟨.createSecret admin ⟨"s", "dns_credential", valueOf text⟩, fun _ => env 10⟩

/-- It is renamed, and keeps its value. -/
def renameTurn : CredentialTurn :=
  ⟨.updateSecret admin 10 ⟨"t", "dns_credential", valueOf Settings.marker⟩, fun _ => env 20⟩

end Sample

theorem like_valueOf {text text' : String} (h : text ≠ "" ∧ text ≠ Settings.marker)
    (h' : text' ≠ "" ∧ text' ≠ Settings.marker) :
    (valueOf text).Like (fun _ => True) (valueOf text') := by
  intro k
  rw [get?_valueOf, get?_valueOf]
  split
  · exact .inr ⟨trivial, ⟨text, rfl, h⟩, text', rfl, h'⟩
  · exact .inl rfl

/-- Two secrets are created, each in a run of its own, and renamed. -/
theorem credentials_unseen_short :
    answers coder .empty [createTurn "first", renameTurn] =
        answers coder .empty [createTurn "other", renameTurn] ∧
      auditTrail coder .empty [createTurn "first", renameTurn] =
        auditTrail coder .empty [createTurn "other", renameTurn] ∧
      ∀ (v : View) (i : Nat → Env),
        outcome (v.read coder) i (performAll coder .empty [createTurn "first", renameTurn]) =
          outcome (v.read coder) i (performAll coder .empty [createTurn "other", renameTurn]) := by
  have hfit : ∀ text, Transfer.encodeSettings coder (valueOf text) = .ok text →
      (valueOf text).Fits coder := fun text h => ⟨text, h⟩
  have hcreate : (createTurn "first").Like coder (createTurn "other") :=
    ⟨rfl, .createSecret (like_valueOf (by decide) (by decide)) (hfit _ (by decide))
      (hfit _ (by decide))⟩
  have hrename : renameTurn.Like coder renameTurn :=
    ⟨rfl, .updateSecret (Settings.Like.refl _) (hfit _ (by decide)) (hfit _ (by decide))⟩
  have hseals : ∀ text, renameTurn.call.seals coder (env 20)
      (perform coder .empty (createTurn text)) = some (valueOf text) →
      Transfer.encodeSettings coder (valueOf text) = .ok text →
      renameTurn.call.SealsFit coder (env 20) (perform coder .empty (createTurn text)) := by
    intro text hseal henc st hst
    rw [← Option.some.inj (hseal.symm.trans hst)]
    exact hfit text henc
  have hrun : ∀ x y,
      renameTurn.call.SealsFit coder (env 20) (perform coder .empty (createTurn x)) →
      renameTurn.call.SealsFit coder (env 20) (perform coder .empty (createTurn y)) →
      SealAlike coder .empty .empty [createTurn x, renameTurn] [createTurn y, renameTurn] :=
    fun x y hx hy => ⟨iff_of_true (fun st hst => nomatch hst) (fun st hst => nomatch hst),
      iff_of_true hx hy, trivial⟩
  exact credentials_unseen coder lawful_coder _ _ (.cons hcreate (.cons hrename .nil)) .empty
    (hrun _ _ (hseals "first" (by decide) (by decide)) (hseals "other" (by decide) (by decide)))

end Sample

end Lcm
