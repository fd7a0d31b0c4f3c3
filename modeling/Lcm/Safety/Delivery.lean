import Lcm.Protocol
import Mathlib.Data.List.Induction

/-!
# Is a key handed out only once?

`Issue` stores a generated key under seal, marks it as delivered in a later transaction, which
clears the stored key, and then returns it. `UpdateCertificate` writes back the whole row it has
read, with the sealed key in it.

* `key_delivered_once`: in every run in which no update writes back a sealed key that has been
  cleared since it was read, and no key is read for a download between the two transactions of
  `Issue`, no other call returns a key that `Issue` has returned, and the row holds no sealed key
  again.
* `key_delivered_twice`: without that, both fail.
-/

namespace Lcm

open Conc Db Svc Issue Ca List Config

/-- The calls that read, return or rewrite a certificate's key. -/
def deliveryCall : Call → Bool
  | .issue _ _ | .downloadKey _ _ | .downloadForService _ _ _ _ | .download _ _ | .renew _ _
  | .updateCertificate _ _ _ | .exportBackup _ _ => true
  | _ => false

/-- The key a step generates. -/
def Ev.generates? : Ev → Option PrivateKey
  | .genKey key => key
  | _ => none

/-- The keys generated along a history. -/
def generated (hist : List Ev) : List PrivateKey := hist.filterMap Ev.generates?

/-- The certificate an `UpdateCertificate` writes, with its tenant. -/
def Ev.updates? : Ev → Option (Id × Id)
  | .updateCertificate row _ => some (row.tenantID, row.id)
  | _ => none

/-- The certificate whose sealed key a step reads. -/
def Ev.readsKey? : Ev → Option Id
  | .getCertificate _ _ (.ok row) => if row.keySealed = [] then none else some row.id
  | _ => none

/-- The call is an `Issue` that hands its key out and does not retain it. It has stored the
certificate and not marked the key yet. -/
def delivering (u : Record Database Ev Call) (id : Id) : Bool :=
  match u.call with
  | .issue _ input => input.deliverKey && !input.retainKey && !(progress u.hist).delivered &&
      (progress u.hist).minted.any fun row => row.id == id
  | _ => false

/-- The row holds, under seal, the key with the given PEM text, or one that is encoded to it. -/
def Carries (P : Platform) (r : IssuedCertificate) (pem : String) : Prop :=
  r.keySealed ≠ [] ∧ ∃ clear ∈ P.envOpen r.keySealed (adCertKey r.id),
    clear = pem ∨ ∃ k ∈ parseAccountKey P clear, encodeKey P k = .ok pem

instance (P : Platform) (r : IssuedCertificate) (pem : String) : Decidable (Carries P r pem) :=
  inferInstanceAs (Decidable (_ ∧ _))

/-- What is sealed opens again, and an encoded key parses to a key with that encoding. -/
structure LawfulKeys (P : Platform) : Prop where
  open_seal : ∀ key pem nonce ad blob, encodeKey P key = .ok pem →
    P.envSeal nonce pem ad = .ok blob → P.envOpen blob ad = some pem
  parse_encode : ∀ key pem key', encodeKey P key = .ok pem →
    parseAccountKey P pem = some key' → encodeKey P key' = .ok pem

/-- A key that is generated is new: no certificate of the first database holds it, and no call
has generated it before. -/
def KeysFresh (P : Platform) (db : Database) (cfg : SysConfig) : SysAct → Prop
  | .spawn _ => True
  | .run i e => ∀ key ∈ (cfg.emits i e).bind Ev.generates?, ∀ pem ∈ (encodeKey P key).toOption,
      (∀ c ∈ db.certificates.rows, ¬ Carries P c pem) ∧
        ∀ u ∈ cfg.threads, ∀ k ∈ generated u.hist, encodeKey P k ≠ .ok pem

instance (P : Platform) (db : Database) (cfg : SysConfig) : DecidablePred (KeysFresh P db cfg)
  | .spawn _ => .isTrue trivial
  | .run _ _ => inferInstanceAs (Decidable (∀ _ ∈ _, _))

/-- If the step is the write of an `UpdateCertificate` and the certificate is stored without a
sealed key, then it was so when the call read it. -/
def NoStaleKey (cfg : SysConfig) : SysAct → Prop
  | .spawn _ => True
  | .run i e => ∀ th ∈ cfg.threads[i]?, ∀ w ∈ (cfg.emits i e).bind Ev.updates?,
      (cfg.store.certificate? w.1 w.2).map IssuedCertificate.keySealed = some [] →
        (progress th.hist).copy.map IssuedCertificate.keySealed = some []

instance (cfg : SysConfig) : DecidablePred (NoStaleKey cfg)
  | .spawn _ => .isTrue trivial
  | .run _ _ => inferInstanceAs (Decidable (∀ _ ∈ _, _))

/-- No download reads a key that is about to be delivered. -/
def NoEarlyKey (cfg : SysConfig) : SysAct → Prop
  | .spawn _ => True
  | .run i e => ∀ th ∈ cfg.threads[i]?, th.call.opensKey →
      ∀ id ∈ (cfg.emits i e).bind Ev.readsKey?, ∀ u ∈ cfg.threads, delivering u.toRecord id = false

instance (cfg : SysConfig) : DecidablePred (NoEarlyKey cfg)
  | .spawn _ => .isTrue trivial
  | .run _ _ => inferInstanceAs (Decidable (∀ _ ∈ _, _))

/-! ## Keys under seal -/

variable {key : PrivateKey} {pem : String} {cfg : SysConfig} {i : Nat} {id : Id}
  {r : IssuedCertificate} {hist : List Ev}

section Keys

variable {P : Platform} {r r' : IssuedCertificate} {pem : String}

theorem LawfulKeys.eq_of_carries (hP : LawfulKeys P) {p : String} {nonce : Nat}
    (hpem : encodeKey P key = .ok p) (hseal : P.envSeal nonce p (adCertKey r.id) = .ok r.keySealed)
    (h : Carries P r pem) : pem = p := by
  obtain ⟨-, clear, hopen, hclear⟩ := h
  have hp := hP.open_seal key p nonce _ _ hpem hseal
  rw [Option.mem_def, hp, Option.some.injEq] at hopen
  subst hopen
  rcases hclear with rfl | ⟨k, hk, hkpem⟩
  · rfl
  have hsame := hP.parse_encode key p k hpem hk
  rw [hkpem] at hsame
  exact Except.ok.inj hsame

theorem carries_of_storedKey (hkey : storedKey P r = some key) (hpem : encodeKey P key = .ok pem) :
    Carries P r pem := by
  unfold storedKey at hkey
  split at hkey
  · next hlen =>
    have hne : r.keySealed ≠ [] := ne_nil_of_length_pos hlen
    split at hkey
    · next clear hopen => exact ⟨hne, clear, hopen, .inr ⟨key, hkey, hpem⟩⟩
    · cases hkey
  · cases hkey

theorem generated_push (hist : List Ev) (ev : Ev) :
    generated (hist ++ [ev]) = generated hist ++ ev.generates?.toList := by
  unfold generated
  rw [filterMap_append]
  cases hev : ev.generates? <;> simp [hev]

theorem key_mem_generated (h : (progress hist).key = some key) : key ∈ generated hist := by
  induction hist using List.reverseRecOn with
  | nil => cases h
  | append_singleton hist ev ih =>
    rw [progress_push] at h
    rw [generated_push, mem_append]
    rcases ((progress hist).steps ev).key with hkey | ⟨k, rfl, hkey⟩
    · rw [hkey] at h
      exact .inl (ih h)
    rw [hkey] at h
    cases h
    exact .inr (by simp [Ev.generates?])

theorem Carries.of_same {r0 : IssuedCertificate} (hid : r0.id = r.id)
    (hsealed : r.keySealed = r0.keySealed ∨ r.keySealed = []) (h : Carries P r pem) :
    Carries P r0 pem := by
  rcases hsealed with hsealed | hsealed
  · rwa [Carries, hsealed, ← hid] at h
  · exact absurd hsealed h.1

end Keys

/-! ## One step -/

section Step

variable {P : Platform} {call : Call} {g : Progress} {s s' : Database} {ev : Ev}

/-- What one step of such a call does to the certificates. -/
inductive KeyStep (P : Platform) (call : Call) (g : Progress) (s : Database) (ev : Ev)
    (s' : Database) : Prop where
  | same (h : s' = s)
  /-- a certificate is stored -/
  | insert (row : IssuedCertificate) (hev : ev = .insertCertificate row (.ok ()))
      (hins : Inserted row s s') (hnew : NewRow P call g row)
  /-- a certificate is rewritten: its sealed key stays, is cleared, or becomes that of the copy
  the call holds -/
  | rewrite (id : Id) (f : IssuedCertificate → IssuedCertificate) (hf : ∀ c, (f c).id = c.id)
      (heq : s' = s.mapCertificate id f hf) (hkind : ∀ c, (f c).kind = c.kind)
      (htenant : ∀ c, (f c).tenantID = c.tenantID)
      (hsealed : ∀ c ∈ s.certificates.rows, c.id = id → (f c).keySealed = c.keySealed ∨
        (f c).keySealed = [] ∨ ∃ old, g.copy = some old ∧ old.id = id ∧
          (f c).keySealed = old.keySealed ∧ (c.keySealed = [] → old.keySealed = []))

theorem keyStep (hcall : deliveryCall call) (heff : Effect s ev s') (hproto : Protocol P call g ev)
    (hstale : ∀ w ∈ ev.updates?,
      (s.certificate? w.1 w.2).map IssuedCertificate.keySealed = some [] →
        g.copy.map IssuedCertificate.keySealed = some []) :
    KeyStep P call g s ev s' := by
  cases wrote P heff hproto with
  | nothing => exact .same rfl
  | insert _ hins _ hnew => exact .insert _ rfl hins hnew
  | update hold hex =>
    refine .rewrite _ _ _ rfl (fun _ => rfl) (fun _ => rfl) fun c hc hid => ?_
    refine .inr (.inr ⟨_, hold, rfl, rfl, fun hnil => ?_⟩)
    -- the row is stored without a key, so the copy has none
    obtain ⟨c', hc'⟩ := Option.isSome_iff_exists.1 hex
    obtain ⟨hm, hid', -⟩ := Database.certificate?_eq_some.1 hc'
    obtain rfl := s.certificates.eq_of_key_eq hc hm (hid.trans hid'.symm)
    have hcopy := hstale _ rfl (by erw [hc', Option.map_some, hnil])
    rw [hold] at hcopy
    exact Option.some.inj hcopy
  | link => exact .rewrite _ _ _ rfl (fun _ => rfl) (fun _ => rfl) fun _ _ _ => .inl rfl
  | deliver => exact .rewrite _ _ _ rfl (fun _ => rfl) (fun _ => rfl) fun _ _ _ => .inr (.inl rfl)
  | revoke | delete | restore | complete => cases hcall

theorem KeyStep.row_stays (h : KeyStep P call g s ev s') {c : IssuedCertificate}
    (hc : c ∈ s.certificates.rows) :
    ∃ c' ∈ s'.certificates.rows, c'.id = c.id ∧ c'.tenantID = c.tenantID ∧ c'.kind = c.kind ∧
      (c.keySealed = [] → c'.keySealed = []) := by
  cases h with
  | same h =>
    subst h
    exact ⟨c, hc, rfl, rfl, rfl, id⟩
  | insert row _ hins _ =>
    obtain ⟨now, hrows⟩ := hins.rows
    rw [hrows]
    exact ⟨c, mem_append_left _ hc, rfl, rfl, rfl, id⟩
  | rewrite id f hf heq hkind htenant hsealed =>
    subst heq
    refine ⟨if c.id = id then f c else c, ?_, ?_⟩
    · exact Table.rows_update _ _ _ hf ▸ mem_map_of_mem hc
    split
    · next hid =>
      refine ⟨hf c, htenant c, hkind c, fun hnil => ?_⟩
      rcases hsealed c hc hid with h | h | ⟨old, -, -, h, hold⟩
      · exact h.trans hnil
      · exact h
      · exact h.trans (hold hnil)
    · exact ⟨rfl, rfl, rfl, fun h => h⟩

/-- A stored row has the id and the sealed key, or no sealed key, of a row that was stored or
held by the call, or it is the one just inserted. -/
theorem KeyStep.row_from (h : KeyStep P call g s ev s') (hr : r ∈ s'.certificates.rows) :
    (∃ r0, (r0 ∈ s.certificates.rows ∨ g.copy = some r0) ∧ r0.id = r.id ∧
      (r.keySealed = r0.keySealed ∨ r.keySealed = [])) ∨
    ∃ row now, ev = .insertCertificate row (.ok ()) ∧ NewRow P call g row ∧ r = row.stored now := by
  cases h with
  | same h =>
    subst h
    exact .inl ⟨r, .inl hr, rfl, .inl rfl⟩
  | insert row hev hins hnew =>
    obtain ⟨now, hrows⟩ := hins.rows
    rw [hrows, mem_append, mem_singleton] at hr
    rcases hr with hr | rfl
    · exact .inl ⟨r, .inl hr, rfl, .inl rfl⟩
    · exact .inr ⟨row, now, hev, hnew, rfl⟩
  | rewrite id f hf heq hkind htenant hsealed =>
    subst heq
    left
    have hrow : r ∈ (s.certificates.update id f hf).rows := hr
    rw [Table.rows_update] at hrow
    obtain ⟨c, hc, rfl⟩ := mem_map.1 hrow
    split
    · next hid =>
      rcases hsealed c hc hid with h | h | ⟨old, hold, hid', h, -⟩
      · exact ⟨c, .inl hc, (hf c).symm, .inl h⟩
      · exact ⟨c, .inl hc, (hf c).symm, .inr h⟩
      · exact ⟨old, .inr hold, (hid'.trans hid.symm).trans (hf c).symm, .inl h⟩
    · exact ⟨c, .inl hc, rfl, .inl rfl⟩

end Step

/-! ## Where a key can be -/

/-- The row is stored, or a call holds it as it has read it. -/
def InPlay (us : List (Record Database Ev Call)) (s : Database) (r : IssuedCertificate) : Prop :=
  r ∈ s.certificates.rows ∨ ∃ (j : Nat) (u : Record Database Ev Call),
    us[j]? = some u ∧ (progress u.hist).copy = some r

/-- What is known of the keys in every run. -/
structure KeyLedger (P : Platform) (db : Database) (us : List (Record Database Ev Call))
    (s : Database) : Prop where
  /-- every key in play was there at the start or has been generated -/
  known : ∀ r, InPlay us s r → ∀ pem, Carries P r pem →
    (∃ c ∈ db.certificates.rows, Carries P c pem) ∨
      ∃ u ∈ us, ∃ k ∈ generated u.hist, encodeKey P k = .ok pem
  /-- different calls have generated different keys -/
  distinct : ∀ (i j : Nat) u v, us[i]? = some u → us[j]? = some v → i ≠ j →
    ∀ k ∈ generated u.hist, ∀ k' ∈ generated v.hist, ∀ pem, encodeKey P k = .ok pem →
      encodeKey P k' ≠ .ok pem
  /-- a row that a call has read is still stored -/
  copies : ∀ u ∈ us, ∀ r, (progress u.hist).copy = some r →
    ∃ c ∈ s.certificates.rows, c.id = r.id ∧ c.kind = r.kind
  /-- a key `Issue` has generated is only in the row it has stored -/
  own : ∀ (j : Nat) u, us[j]? = some u → ∀ subj input, u.call = .issue subj input →
    ∀ k ∈ generated u.hist, ∀ pem, encodeKey P k = .ok pem → ∀ r, InPlay us s r →
      Carries P r pem → ∃ row ∈ (progress u.hist).minted, r.id = row.id
  /-- the row `Issue` has stored is an SVID, and has no key any more once it is delivered -/
  stored : ∀ u ∈ us, ∀ subj input, u.call = .issue subj input →
    ∀ row ∈ (progress u.hist).minted, ∃ c ∈ s.certificates.rows, c.id = row.id ∧
      c.tenantID = row.tenantID ∧ c.kind = some .svid ∧
      ((progress u.hist).delivered = true → c.keySealed = [])
  /-- `Issue` marks a key as delivered after it has stored the row -/
  marked : ∀ u ∈ us, ∀ subj input, u.call = .issue subj input →
    (progress u.hist).delivered = true → (progress u.hist).minted ≠ []
  /-- no download holds the key of such a row, when it is to be delivered -/
  unread : ∀ u ∈ us, ∀ subj input, u.call = .issue subj input → input.deliverKey = true →
    input.retainKey = false → ∀ row ∈ (progress u.hist).minted, ∀ v ∈ us, v.call.opensKey →
      ∀ r, (progress v.hist).copy = some r → r.id = row.id → r.keySealed = []

namespace KeyLedger

variable {P : Platform} {db s s' : Database} {us : List (Record Database Ev Call)}

theorem init (db : Database) : KeyLedger P db [] db where
  known r hr pem hpem := by
    rcases hr with hr | ⟨j, u, hu, -⟩
    · exact .inl ⟨r, hr, hpem⟩
    · cases hu
  distinct i j u v hu := by cases hu
  copies u hu := by cases hu
  own j u hu := by cases hu
  stored u hu := by cases hu
  marked u hu := by cases hu
  unread u hu := by cases hu

theorem new (h : KeyLedger P db us s) (c : Call) : KeyLedger P db (us ++ [fresh c s]) s := by
  have hplay : ∀ r, InPlay (us ++ [fresh c s]) s r → InPlay us s r := by
    rintro r (hr | ⟨j, u, hu, hcopy⟩)
    · exact .inl hr
    rcases getElem?_append_cases hu with hu | rfl
    · exact .inr ⟨j, u, hu, hcopy⟩
    · cases hcopy
  refine ⟨?_, ?_, ?_, ?_, ?_, ?_, ?_⟩
  · intro r hr pem hpem
    rcases h.known r (hplay r hr) pem hpem with hdb | ⟨u, hu, hk⟩
    · exact .inl hdb
    · exact .inr ⟨u, mem_append_left _ hu, hk⟩
  · intro i j u v hu hv hne k hk k' hk'
    rcases getElem?_append_cases hu with hu | rfl
    · rcases getElem?_append_cases hv with hv | rfl
      · exact h.distinct i j u v hu hv hne k hk k' hk'
      · cases hk'
    · cases hk
  · exact forall_mem_append.2 ⟨h.copies, forall_mem_singleton.2 fun _ hcopy => by cases hcopy⟩
  · intro j u hu subj input hcall k hk pem hpem r hr
    rcases getElem?_append_cases hu with hu | rfl
    · exact h.own j u hu subj input hcall k hk pem hpem r (hplay r hr)
    · cases hk
  · exact forall_mem_append.2 ⟨h.stored, forall_mem_singleton.2 fun _ _ _ _ hrow => by cases hrow⟩
  · exact forall_mem_append.2 ⟨h.marked, forall_mem_singleton.2 fun _ _ _ hd => by cases hd⟩
  · intro u hu subj input hissue hdeliver hretain row hrow
    refine forall_mem_append.2 ⟨?_, forall_mem_singleton.2 fun _ _ hcopy => by cases hcopy⟩
    rcases mem_append.1 hu with hu | hu
    · exact h.unread u hu subj input hissue hdeliver hretain row hrow
    · obtain rfl := mem_singleton.1 hu
      cases hrow

/-! A step of the call at place `i`. -/

section Step

variable {i : Nat} {t : Record Database Ev Call} {ev : Ev} {k : PrivateKey}

theorem generated_mono (ev : Ev) (hk : k ∈ generated hist) : k ∈ generated (hist ++ [ev]) := by
  rw [generated_push]
  exact mem_append_left _ hk

/-- The rows in play after a step: with the key of one in play before, or without one, or new. -/
theorem inPlay_step (ht : us[i]? = some t) (heff : Effect s ev s')
    (hks : KeyStep P t.call (progress t.hist) s ev s') (hr : InPlay (us.set i (t.push ev)) s' r) :
    (∃ r0, InPlay us s r0 ∧ r0.id = r.id ∧ (r.keySealed = r0.keySealed ∨ r.keySealed = [])) ∨
    ∃ row now, ev = .insertCertificate row (.ok ()) ∧ NewRow P t.call (progress t.hist) row ∧
      r = row.stored now := by
  rcases hr with hr | ⟨j, u, hu, hcopy⟩
  · rcases hks.row_from hr with ⟨r0, hr0, hid, hsealed⟩ | hnew
    · refine .inl ⟨r0, ?_, hid, hsealed⟩
      exact hr0.imp id fun hcopy => ⟨i, t, ht, hcopy⟩
    · exact .inr hnew
  left
  rcases getElem?_set_cases hu with ⟨rfl, rfl⟩ | ⟨-, hu⟩
  · rw [Record.push_hist, progress_push] at hcopy
    rcases Progress.copy_next_cases heff hcopy with hcopy | ⟨_, _, -, -, hrow⟩
    · exact ⟨r, .inr ⟨j, t, ht, hcopy⟩, rfl, .inl rfl⟩
    · exact ⟨r, .inl (Database.certificate?_eq_some.1 hrow).1, rfl, .inl rfl⟩
  · exact ⟨r, .inr ⟨j, u, hu, hcopy⟩, rfl, .inl rfl⟩

/-- The key of a new row was generated by the call or is that of a generic certificate it has
read. -/
theorem newRow_carries (hP : LawfulKeys P) (hcall : deliveryCall t.call) {row : IssuedCertificate}
    (hnew : NewRow P t.call (progress t.hist) row) {now : Time}
    (hpem : Carries P (row.stored now) pem) :
    (∃ k ∈ generated t.hist, encodeKey P k = .ok pem) ∨
      ∃ old, (progress t.hist).copy = some old ∧ old.kind = some .generic ∧ Carries P old pem := by
  have hrow : Carries P row pem := hpem
  cases hnew.sealed with
  | absent h => exact absurd h hrow.1
  | generated key p nonce hkey hp hseal =>
    obtain rfl := hP.eq_of_carries hp hseal hrow
    exact .inl ⟨key, key_mem_generated hkey, hp⟩
  | reused old key p nonce hold hkind hkey hp hseal =>
    obtain rfl := hP.eq_of_carries hp hseal hrow
    exact .inr ⟨old, hold, hkind, carries_of_storedKey hkey hp⟩
  | imported subj input himp =>
    rw [himp] at hcall
    cases hcall

/-- The key that a step generates, if any, is new. -/
def FreshKey (P : Platform) (db : Database) (us : List (Record Database Ev Call)) (ev : Ev) : Prop :=
  ∀ key, ev.generates? = some key → ∀ pem, encodeKey P key = .ok pem →
    (∀ c ∈ db.certificates.rows, ¬ Carries P c pem) ∧
      ∀ u ∈ us, ∀ k ∈ generated u.hist, encodeKey P k ≠ .ok pem

variable (h : KeyLedger P db us s) (ht : us[i]? = some t)

include h ht

theorem not_own_of_generic {old : IssuedCertificate} (hold : (progress t.hist).copy = some old)
    (hkind : old.kind = some .generic) (hpem : Carries P old pem) {j : Nat}
    {u : Record Database Ev Call} (hu : us[j]? = some u) {subj : Subjects} {input : IssueInput}
    (hcall : u.call = .issue subj input) (hk : k ∈ generated u.hist) : encodeKey P k ≠ .ok pem := by
  intro he
  obtain ⟨row, hrow, hid⟩ :=
    h.own j u hu subj input hcall k hk pem he old (.inr ⟨i, t, ht, hold⟩) hpem
  obtain ⟨c, hc, hcid, -, hsvid, -⟩ := h.stored u (mem_of_getElem? hu) subj input hcall row hrow
  obtain ⟨c', hc', hcid', hkind'⟩ := h.copies t (mem_of_getElem? ht) old hold
  obtain rfl := s.certificates.eq_of_key_eq hc hc' (by rw [hcid, hcid', hid])
  rw [hkind', hkind] at hsvid
  cases hsvid

theorem known_step (hP : LawfulKeys P) (hcall : deliveryCall t.call) (heff : Effect s ev s')
    (hks : KeyStep P t.call (progress t.hist) s ev s') (r : IssuedCertificate)
    (hr : InPlay (us.set i (t.push ev)) s' r) (pem : String) (hpem : Carries P r pem) :
    (∃ c ∈ db.certificates.rows, Carries P c pem) ∨
      ∃ u ∈ us.set i (t.push ev), ∃ k ∈ generated u.hist, encodeKey P k = .ok pem := by
  have hlt : i < us.length := (List.getElem?_eq_some_iff.1 ht).1
  have hself : t.push ev ∈ us.set i (t.push ev) := mem_set hlt _
  -- a key generated before the step is still on record after it
  have hgen : ∀ u ∈ us, ∀ k ∈ generated u.hist, encodeKey P k = .ok pem →
      ∃ u ∈ us.set i (t.push ev), ∃ k ∈ generated u.hist, encodeKey P k = .ok pem := by
    intro u hu k hk hkpem
    obtain ⟨j, hj⟩ := getElem?_of_mem hu
    by_cases hij : i = j
    · subst hij
      rw [ht] at hj
      cases hj
      exact ⟨t.push ev, hself, k, generated_mono ev hk, hkpem⟩
    · have hset : (us.set i (t.push ev))[j]? = some u := by rw [getElem?_set_ne hij, hj]
      exact ⟨u, mem_of_getElem? hset, k, hk, hkpem⟩
  have hold : ∀ r0, InPlay us s r0 → Carries P r0 pem →
      (∃ c ∈ db.certificates.rows, Carries P c pem) ∨
        ∃ u ∈ us.set i (t.push ev), ∃ k ∈ generated u.hist, encodeKey P k = .ok pem := by
    intro r0 hr0 hpem0
    rcases h.known r0 hr0 pem hpem0 with hdb | ⟨u, hu, k, hk, hkpem⟩
    · exact .inl hdb
    · exact .inr (hgen u hu k hk hkpem)
  rcases inPlay_step ht heff hks hr with ⟨r0, hr0, hid, hsealed⟩ | ⟨row, now, -, hnew, rfl⟩
  · exact hold r0 hr0 (hpem.of_same hid hsealed)
  rcases newRow_carries hP hcall hnew hpem with ⟨k, hk, hkpem⟩ | ⟨old, hcopy, -, hpem'⟩
  · exact .inr (hgen t (mem_of_getElem? ht) k hk hkpem)
  · exact hold old (.inr ⟨i, t, ht, hcopy⟩) hpem'

theorem own_step (hP : LawfulKeys P) (hcall : deliveryCall t.call) (hfresh : FreshKey P db us ev)
    (heff : Effect s ev s') (hks : KeyStep P t.call (progress t.hist) s ev s') (j : Nat)
    (u : Record Database Ev Call) (hu : (us.set i (t.push ev))[j]? = some u) (subj : Subjects)
    (input : IssueInput) (hissue : u.call = .issue subj input) (k : PrivateKey)
    (hk : k ∈ generated u.hist) (pem : String) (hpem : encodeKey P k = .ok pem)
    (r : IssuedCertificate) (hr : InPlay (us.set i (t.push ev)) s' r) (hc : Carries P r pem) :
    ∃ row ∈ (progress u.hist).minted, r.id = row.id := by
  rcases getElem?_set_cases hu with ⟨rfl, rfl⟩ | ⟨hne, hu⟩
  · -- the call's own step
    rw [Record.push_hist, progress_push]
    rcases inPlay_step ht heff hks hr with ⟨r0, hr0, hid, hsealed⟩ | ⟨row, now, rfl, -, rfl⟩
    · have hc0 := hc.of_same hid hsealed
      rw [Record.push_hist, generated_push, mem_append, Option.mem_toList] at hk
      rcases hk with hk | hnew
      · obtain ⟨row, hrow, hrid⟩ := h.own _ t ht subj input hissue k hk pem hpem r0 hr0 hc0
        exact ⟨row, Progress.mem_minted_next hrow ev, hid ▸ hrid⟩
      · -- a key that has just been generated is nowhere yet
        obtain ⟨hdb, hothers⟩ := hfresh k hnew pem hpem
        rcases h.known r0 hr0 pem hc0 with ⟨c, hcm, hcc⟩ | ⟨v, hv, k', hk', hkpem⟩
        · exact absurd hcc (hdb c hcm)
        · exact absurd hkpem (hothers v hv k' hk')
    · exact ⟨row, mem_append_right _ mem_cons_self, rfl⟩
  · -- another call's step
    rcases inPlay_step ht heff hks hr with ⟨r0, hr0, hid, hsealed⟩ | ⟨row, now, -, hnew, rfl⟩
    · obtain ⟨row, hrow, hrid⟩ :=
        h.own j u hu subj input hissue k hk pem hpem r0 hr0 (hc.of_same hid hsealed)
      exact ⟨row, hrow, hid ▸ hrid⟩
    rcases newRow_carries hP hcall hnew hc with ⟨k', hk', hkpem⟩ | ⟨old, hcopy, hkind, hpem'⟩
    · exact absurd hkpem (h.distinct j i u t hu ht hne k hk k' hk' pem hpem)
    · exact absurd hpem (h.not_own_of_generic ht hcopy hkind hpem' hu hissue hk)

theorem stored_step (heff : Effect s ev s') (hproto : Protocol P t.call (progress t.hist) ev)
    (hks : KeyStep P t.call (progress t.hist) s ev s') (u : Record Database Ev Call)
    (hu : u ∈ us.set i (t.push ev)) (subj : Subjects) (input : IssueInput)
    (hissue : u.call = .issue subj input) (row : IssuedCertificate)
    (hrow : row ∈ (progress u.hist).minted) :
    ∃ c ∈ s'.certificates.rows, c.id = row.id ∧ c.tenantID = row.tenantID ∧ c.kind = some .svid ∧
      ((progress u.hist).delivered = true → c.keySealed = []) := by
  have hold : ∀ u ∈ us, u.call = .issue subj input → row ∈ (progress u.hist).minted →
      ∃ c ∈ s'.certificates.rows, c.id = row.id ∧ c.tenantID = row.tenantID ∧
        c.kind = some .svid ∧ ((progress u.hist).delivered = true → c.keySealed = []) := by
    intro u hu hissue hrow
    obtain ⟨c, hc, hid, hten, hkind, hd⟩ := h.stored u hu subj input hissue row hrow
    obtain ⟨c', hc', hid', hten', hkind', hnil⟩ := hks.row_stays hc
    exact ⟨c', hc', hid'.trans hid, hten'.trans hten, hkind'.trans hkind, fun h => hnil (hd h)⟩
  rcases mem_or_eq_of_mem_set hu with hu | rfl
  · exact hold u hu hissue hrow
  have htm := mem_of_getElem? ht
  rw [Record.push_hist, progress_push] at hrow ⊢
  rcases ((progress t.hist).steps ev).minted with hm | ⟨row', rfl, hm⟩
  · rw [hm] at hrow
    rcases ((progress t.hist).steps ev).delivered with hd | ⟨t1, id1, rfl⟩
    · rw [hd]
      exact hold t htm hissue hrow
    · -- this is the step that clears the key of the row it has stored
      obtain ⟨-, rfl⟩ := heff
      have hcall : t.call = .issue subj input := hissue
      rcases hproto with ⟨subj', hcall', -⟩ | ⟨-, -, row', -, hmint, -, rfl⟩
      · rw [hcall] at hcall'
        cases hcall'
      rw [hmint] at hrow
      obtain rfl := mem_singleton.1 hrow
      obtain ⟨c, hc, hid, hten, hkind, -⟩ :=
        h.stored t htm subj input hcall row (by rw [hmint]; exact mem_cons_self)
      refine ⟨c.delivered, ?_, hid, hten, hkind, fun _ => rfl⟩
      have hmem := mem_map_of_mem
        (f := fun c => if c.id = row.id then IssuedCertificate.delivered c else c) hc
      rw [if_pos hid, ← Table.rows_update _ _ _ IssuedCertificate.delivered_id] at hmem
      exact hmem
  · obtain ⟨hmint, hnew⟩ := hproto
    rw [hm, hmint, nil_append, mem_singleton] at hrow
    subst hrow
    obtain ⟨now, hrows⟩ := Inserted.rows heff
    refine ⟨row.stored now, ?_, rfl, rfl, ?_, fun hd => ?_⟩
    · rw [hrows]
      exact mem_append_right _ mem_cons_self
    · show some (defaultKind row.kind) = some .svid
      rw [hnew.kind subj input hissue]
      rfl
    · -- nothing is marked before it is stored
      have hd' : (progress t.hist).delivered = true := hd
      exact absurd hmint (h.marked t htm subj input hissue hd')

/-- A download reads the row before it is stored, which cannot be, or after its key is cleared. -/
theorem unread_step (heff : Effect s ev s')
    (hearly : ∀ id, ev.readsKey? = some id → t.call.opensKey → ∀ u ∈ us, delivering u id = false)
    (u : Record Database Ev Call) (hu : u ∈ us.set i (t.push ev)) (subj : Subjects)
    (input : IssueInput) (hissue : u.call = .issue subj input) (hdeliver : input.deliverKey = true)
    (hretain : input.retainKey = false) (row : IssuedCertificate)
    (hrow : row ∈ (progress u.hist).minted) (v : Record Database Ev Call)
    (hv : v ∈ us.set i (t.push ev)) (hopens : v.call.opensKey) (r : IssuedCertificate)
    (hcopy : (progress v.hist).copy = some r) (hid : r.id = row.id) : r.keySealed = [] := by
  have htm := mem_of_getElem? ht
  -- a copy that was held before the step
  have hheld : ∀ w ∈ us, w.call.opensKey → (progress w.hist).copy = some r → r.keySealed = [] := by
    intro w hw hopens hcopy
    rcases mem_or_eq_of_mem_set hu with hu | rfl
    · exact h.unread u hu subj input hissue hdeliver hretain row hrow w hw hopens r hcopy hid
    rw [Record.push_hist, progress_push] at hrow
    rcases ((progress t.hist).steps ev).minted with hm | ⟨row', rfl, hm⟩
    · rw [hm] at hrow
      exact h.unread t htm subj input hissue hdeliver hretain row hrow w hw hopens r hcopy hid
    rcases mem_append.1 (hm ▸ hrow) with hrow | hrow
    · exact h.unread t htm subj input hissue hdeliver hretain row hrow w hw hopens r hcopy hid
    -- the row that is stored now has a new id
    obtain rfl := mem_singleton.1 hrow
    obtain ⟨now, htable⟩ := heff.table
    obtain ⟨c, hc, hcid, -⟩ := h.copies w hw r hcopy
    exact absurd (hcid.trans hid)
      (Table.get?_eq_none_iff.1 (Table.insert?_eq_some htable).1 c hc)
  rcases mem_or_eq_of_mem_set hv with hv | rfl
  · exact hheld v hv hopens hcopy
  rw [Record.push_hist, progress_push] at hcopy
  rcases Progress.copy_next_cases heff hcopy with hcopy | ⟨_, _, rfl, rfl, hread⟩
  · exact hheld t htm hopens hcopy
  -- the stored row is read now, by another call than the `Issue`
  by_contra hne
  rcases mem_or_eq_of_mem_set hu with hu | rfl
  · have hnot := hearly r.id (if_neg hne) hopens u hu
    have hdone : (progress u.hist).delivered = true := by
      by_contra hnd
      have hany : (progress u.hist).minted.any (fun row => row.id == r.id) = true :=
        any_eq_true.2 ⟨row, hrow, beq_iff_eq.2 hid.symm⟩
      simp [delivering, hissue, hdeliver, hretain, hnd, hany] at hnot
    obtain ⟨c, hc, hcid, -, -, hnil⟩ := h.stored u hu subj input hissue row hrow
    have hstored := (Database.certificate?_eq_some.1 hread).1
    obtain rfl := Table.eq_of_key_eq hstored hc (hid.trans hcid.symm)
    exact hne (hnil hdone)
  · rw [hissue] at hopens
    cases hopens

theorem step (hP : LawfulKeys P) (hcall : deliveryCall t.call) (hfresh : FreshKey P db us ev)
    (hearly : ∀ id, ev.readsKey? = some id → t.call.opensKey → ∀ u ∈ us, delivering u id = false)
    (heff : Effect s ev s') (hproto : Protocol P t.call (progress t.hist) ev)
    (hks : KeyStep P t.call (progress t.hist) s ev s') :
    KeyLedger P db (us.set i (t.push ev)) s' where
  known := h.known_step ht hP hcall heff hks
  distinct i' j' u v hu hv hne k hk k' hk' pem hpem hpem' := by
    have hpush : ∀ k, k ∈ generated (t.push ev).hist →
        k ∈ generated t.hist ∨ ev.generates? = some k := by
      intro k hk
      rw [Record.push_hist, generated_push, mem_append, Option.mem_toList] at hk
      exact hk
    rcases getElem?_set_cases hu with ⟨rfl, rfl⟩ | ⟨-, hu'⟩
    · rcases getElem?_set_cases hv with ⟨rfl, -⟩ | ⟨-, hv⟩
      · exact hne rfl
      rcases hpush k hk with hk | hnew
      · exact h.distinct _ _ t v ht hv hne k hk k' hk' pem hpem hpem'
      · exact (hfresh k hnew pem hpem).2 v (mem_of_getElem? hv) k' hk' hpem'
    rcases getElem?_set_cases hv with ⟨rfl, rfl⟩ | ⟨-, hv⟩
    · rcases hpush k' hk' with hk' | hnew
      · exact h.distinct _ _ u t hu' ht hne k hk k' hk' pem hpem hpem'
      · exact (hfresh k' hnew pem hpem').2 u (mem_of_getElem? hu') k hk hpem
    · exact h.distinct _ _ u v hu' hv hne k hk k' hk' pem hpem hpem'
  copies u hu r hcopy := by
    have hold : ∀ u ∈ us, (progress u.hist).copy = some r →
        ∃ c ∈ s'.certificates.rows, c.id = r.id ∧ c.kind = r.kind := by
      intro u hu hcopy
      obtain ⟨c, hc, hid, hkind⟩ := h.copies u hu r hcopy
      obtain ⟨c', hc', hid', -, hkind', -⟩ := hks.row_stays hc
      exact ⟨c', hc', hid'.trans hid, hkind'.trans hkind⟩
    rcases mem_or_eq_of_mem_set hu with hu | rfl
    · exact hold u hu hcopy
    rw [Record.push_hist, progress_push] at hcopy
    rcases Progress.copy_next_cases heff hcopy with hcopy | ⟨_, _, -, rfl, hrow⟩
    · exact hold t (mem_of_getElem? ht) hcopy
    · exact ⟨r, (Database.certificate?_eq_some.1 hrow).1, rfl, rfl⟩
  own := h.own_step ht hP hcall hfresh heff hks
  stored := h.stored_step ht heff hproto hks
  marked u hu subj input hissue hd := by
    rcases mem_or_eq_of_mem_set hu with hu | rfl
    · exact h.marked u hu subj input hissue hd
    rw [Record.push_hist, progress_push] at hd ⊢
    rcases ((progress t.hist).steps ev).delivered with hd' | ⟨t1, id1, rfl⟩
    · rw [hd'] at hd
      exact Progress.minted_ne_nil_next (h.marked t (mem_of_getElem? ht) subj input hissue hd) ev
    have hcall : t.call = .issue subj input := hissue
    rcases hproto with ⟨subj', hcall', -⟩ | ⟨-, -, row', -, hmint, -⟩
    · rw [hcall] at hcall'
      cases hcall'
    refine Progress.minted_ne_nil_next ?_ _
    rw [hmint]
    exact cons_ne_nil _ _
  unread := h.unread_step ht heff hearly

end Step

end KeyLedger

/-! ## Every run -/

section Run

variable {P : Platform} {as : List SysAct}

theorem sound_deliveryCalls : (certificates P fun c => deliveryCall c).Sound
    fun c => (body P c).run := by
  refine sound_certificates P ?_ (fun h => by cases h)
  intro c hc
  cases c <;> trivial

theorem keyStep_pool {e : Env} {th : SysThread} {ev : Ev} {s' : Database}
    (hstale : NoStaleKey cfg (.run i e)) (hth : cfg.threads[i]? = some th)
    (hcall : deliveryCall th.call) (hev : cfg.emits i e = some ev)
    (hok : Happens e cfg.store ev s' ∧ Protocol P th.call (progress th.hist) ev) :
    KeyStep P th.call (progress th.hist) cfg.store ev s' := by
  refine keyStep hcall hok.1.effect hok.2 ?_
  intro w hw
  exact hstale th hth w (by simpa [hev] using hw)

theorem keyLedger_exec (hP : LawfulKeys P) {db : Database}
    (hcalls : ∀ a ∈ as, a.Calls fun c => deliveryCall c) (hfresh : AllMeet P (KeysFresh P db) db as)
    (hstale : AllMeet P NoStaleKey db as) (hearly : AllMeet P NoEarlyKey db as) :
    KeyLedger P db (runFrom P db as).records (runFrom P db as).store := by
  refine Spec.records_exec (sound_deliveryCalls (P := P)) (I := KeyLedger P db) ?_ ?_
    (Spec.tracked_init db) (KeyLedger.init db) hcalls
    (meets_and _ hfresh (meets_and _ hstale hearly))
  · intro us c s h
    exact h.new c
  intro cfg i e th ev s' hc hth hop hev hok h
  refine h.step (records_getElem? hth) hP hop ?_ ?_ hok.1.effect hok.2
    (keyStep_pool hc.2.1 hth hop hev hok)
  · intro key hkey pem hpem
    obtain ⟨hdb, hothers⟩ :=
      hc.1 key (by simpa [hev] using hkey) pem (by simp [hpem, Except.toOption])
    refine ⟨hdb, fun u hu => ?_⟩
    obtain ⟨u', hu', rfl⟩ := mem_map.1 hu
    exact hothers u' hu'
  · intro id hid hopens u hu
    obtain ⟨u', hu', rfl⟩ := mem_map.1 hu
    exact hc.2.2 th hth hopens id (by simpa [hev] using hid) u' hu'

/-- A key that `Issue` returns and does not retain is returned by no other call, and the
certificate is stored without a sealed key from then on, in every run in which no update writes
back a key that has been cleared and no download reads one that is about to be delivered. -/
theorem key_delivered_once (P : Platform) (hP : LawfulKeys P) (db : Database) (as : List SysAct)
    (hcalls : ∀ a ∈ as, a.Calls fun c => deliveryCall c)
    (hfresh : AllMeet P (KeysFresh P db) db as) (hstale : AllMeet P NoStaleKey db as)
    (hearly : AllMeet P NoEarlyKey db as) (i : Nat) (th : SysThread)
    (hth : (runFrom P db as).threads[i]? = some th) (subj : Subjects) (input : IssueInput)
    (hcall : th.call = .issue subj input) (hdeliver : input.deliverKey = true)
    (hretain : input.retainKey = false) (b : Bundle) (hret : Returned th (.bundle b))
    (hkey : b.keyPEM ≠ "") :
    (∀ row, (runFrom P db as).store.certificate? subj.tenantID b.certificate.id = some row →
      row.keySealed = []) ∧
    ∀ j ≠ i, ∀ u, (runFrom P db as).threads[j]? = some u → ∀ v, Returned u v →
      v.key? ≠ some b.keyPEM := by
  have htracked : (certificates P fun c => deliveryCall c).Tracked (runFrom P db as) :=
    Spec.tracked_exec sound_deliveryCalls (Spec.tracked_init db) hcalls
  have hledger := keyLedger_exec hP hcalls hfresh hstale hearly
  have hthm := mem_of_getElem? hth
  have hrec : th.toRecord ∈ (runFrom P db as).records := mem_map_of_mem hthm
  -- what `Issue` has done by its return
  have hpost := htracked.post_of_result hthm hret
  obtain ⟨row, hmint, hid⟩ := hpost.bundle subj input b hcall rfl
  have hdelivered := hpost.delivered subj input b hcall rfl hkey hretain
  have hrow : row ∈ (progress th.hist).minted := hmint ▸ mem_cons_self
  have hshown : ∃ k ∈ generated th.hist, encodeKey P k = .ok b.keyPEM := by
    have hpem : (Value.bundle b).key? = some b.keyPEM := by simp [Value.key?, hkey]
    cases hpost.key _ _ rfl hpem with
    | issued row' key hrow hk hp => exact ⟨key, key_mem_generated hk, hp⟩
    | opened old hopens _ _ _ =>
      rw [hcall] at hopens
      cases hopens
  obtain ⟨k, hk, hkpem⟩ := hshown
  constructor
  · intro row' hrow'
    obtain ⟨c, hc, hcid, -, -, hnil⟩ := hledger.stored _ hrec subj input hcall row hrow
    obtain ⟨hmem, hid', -⟩ := Database.certificate?_eq_some.1 hrow'
    obtain rfl := Table.eq_of_key_eq hmem hc (by rw [hid', hid, hcid])
    exact hnil hdelivered
  intro j hj u hu v hv hvkey
  have hurec : u.toRecord ∈ (runFrom P db as).records := mem_map_of_mem (mem_of_getElem? hu)
  cases (htracked.post_of_result (mem_of_getElem? hu) hv).key v _ rfl hvkey with
  | issued row' key _ hk' hp =>
    -- another call has generated another key
    exact hledger.distinct i j _ _ (records_getElem? hth) (records_getElem? hu) hj.symm k hk key
      (key_mem_generated hk') _ hkpem hp
  | opened old hopens hold hne hopen =>
    -- only the row `Issue` has stored can hold its key, and it was read without one
    obtain ⟨row', hrow', hid'⟩ := hledger.own i _ (records_getElem? hth) subj input hcall k hk _
      hkpem old (.inr ⟨j, _, records_getElem? hu, hold⟩) ⟨hne, _, hopen, .inl rfl⟩
    exact hne (hledger.unread _ hrec subj input hcall hdeliver hretain row' hrow' _ hurec hopens
      old hold hid')

end Run

/-! ## Two schedules of the sample deployment -/

namespace Sample

theorem encodeKey_ok (h : encodeKey platform key = .ok pem) : ∃ x : UInt8, pem = text [x] := by
  obtain ⟨pub⟩ := key
  cases pub with
  | ecdsa bits n =>
    cases h
    exact ⟨n.toUInt8, rfl⟩
  | _ => cases h

theorem lawfulKeys : LawfulKeys platform where
  open_seal key pem nonce ad blob hpem hseal := by
    obtain ⟨x, rfl⟩ := encodeKey_ok hpem
    cases hseal
    show envOpen _ _ = _
    simp [envOpen, bytes_text]
  parse_encode key pem key' hpem hparse := by
    obtain ⟨x, rfl⟩ := encodeKey_ok hpem
    have hne : text [x] ≠ "" := by
      intro h
      have := congrArg bytes h
      rw [bytes_text] at this
      cases this
    simp only [parseAccountKey, platform, hne, if_false, bytes_text] at hparse
    cases hparse
    show Except.ok (text [UInt8.ofNat x.toNat]) = _
    rw [UInt8.ofNat_toNat]

/-- `Issue` runs from its arrival to its return. -/
def issueAlone : List SysAct := .spawn (.issue admin keyInput) :: steps 0 19 10

/-- An update of the certificate runs from its arrival to its return. -/
def updateIssued : List SysAct :=
  .spawn (.updateCertificate admin 10 ⟨"bob", none⟩) :: steps 1 12 30

/-- An update reads the certificate when it is stored and not yet marked; then `Issue` marks the
key and returns it. -/
def issueDuringUpdate : List SysAct :=
  .spawn (.issue admin keyInput) :: steps 0 14 10 ++
    .spawn (.updateCertificate admin 10 ⟨"bob", none⟩) :: steps 1 4 30 ++ steps 0 5 10

def writeBackAndDownload : List SysAct :=
  steps 1 1 30 ++ .spawn (.downloadKey admin 10) :: steps 2 4 40

/-- The call of thread `i`, and the certificate's id and the key of the bundle it has returned. -/
def handedOut? (cfg : SysConfig) (i : Nat) : Option (Call × Id × String) :=
  cfg.threads[i]?.bind fun th =>
    match th.prog.result? with
    | some (.ok (.bundle b)) => some (th.call, b.certificate.id, b.keyPEM)
    | _ => none

theorem returned_of_handedOut? {c : Call} (h : handedOut? cfg i = some (c, id, pem)) :
    ∃ th b, cfg.threads[i]? = some th ∧ th.call = c ∧
      Returned th (.bundle b) ∧ b.certificate.id = id ∧ b.keyPEM = pem := by
  obtain ⟨th, hth, hres⟩ := Option.bind_eq_some_iff.1 h
  split at hres
  · next b hret =>
    cases hres
    exact ⟨th, b, hth, rfl, hret, rfl, rfl⟩
  · cases hres

end Sample

open Sample

set_option maxRecDepth 4000 in
/-- Run after `Issue` has returned the key, an update writes the row back without it. -/
theorem key_delivered_once_over_update :
    ∃ row, (runFrom platform database (issueAlone ++ updateIssued)
      ).store.certificate? 1 10 = some row ∧ row.owner = "bob" ∧ row.keySealed = [] := by
  have hrow : ((runFrom platform database
      (issueAlone ++ updateIssued)).store.certificate? 1 10).map
      IssuedCertificate.owner = some "bob" := by decide
  obtain ⟨row, hrow, howner⟩ := Option.map_eq_some_iff.1 hrow
  refine ⟨row, hrow, howner, ?_⟩
  have hdone : handedOut? (runFrom platform database (issueAlone ++ updateIssued)) 0
      = some (.issue admin keyInput, 10, "K") := by
    decide
  obtain ⟨th, b, hth, hcall, hret, hid, hkey⟩ := returned_of_handedOut? hdone
  have honce := key_delivered_once platform lawfulKeys database
    (issueAlone ++ updateIssued) (by decide) (by decide) (by decide) (by decide) 0 th hth
    admin keyInput hcall rfl rfl b hret (by rw [hkey]; decide)
  exact honce.1 row (by rw [hid]; exact hrow)

set_option maxRecDepth 4000 in
/-- An update that has read the row before the key was marked and writes it back after `Issue`
has returned stores the sealed key again, and the key can be downloaded. -/
theorem key_delivered_twice :
    ¬ ∀ (P : Platform), LawfulKeys P → ∀ (db : Database) (as : List SysAct),
      (∀ a ∈ as, a.Calls fun c => deliveryCall c) → AllMeet P (KeysFresh P db) db as →
      ∀ (i : Nat) (th : SysThread), (runFrom P db as).threads[i]? = some th →
      ∀ subj input, th.call = .issue subj input → input.deliverKey = true →
      input.retainKey = false → ∀ b, Returned th (.bundle b) → b.keyPEM ≠ "" →
      (∀ row, (runFrom P db as).store.certificate? subj.tenantID b.certificate.id
          = some row → row.keySealed = []) ∧
      ∀ j ≠ i, ∀ u, (runFrom P db as).threads[j]? = some u → ∀ v, Returned u v →
        v.key? ≠ some b.keyPEM := by
  intro h
  have hdone : handedOut? (runFrom platform database (issueDuringUpdate ++ writeBackAndDownload)) 0
      = some (.issue admin keyInput, 10, "K") := by
    decide
  have hagain : outcome? (runFrom platform database
      (issueDuringUpdate ++ writeBackAndDownload)) 2
        = some (.downloadKey admin 10, .key "K") := by
    decide
  obtain ⟨th, b, hth, hcall, hret, hid, hkey⟩ := returned_of_handedOut? hdone
  obtain ⟨u, hu, -, hv⟩ := thread_of_outcome? hagain
  have honce := h platform lawfulKeys database (issueDuringUpdate ++ writeBackAndDownload)
    (by decide) (by decide) 0 th hth admin keyInput hcall rfl rfl b hret (by rw [hkey]; decide)
  exact honce.2 2 (by decide) u hu _ hv (by rw [hkey]; rfl)

end Lcm
