import Lcm.Versions
import Mathlib.Logic.Relation

/-!
# Does a generic certificate keep its key?

The renewal of a generic certificate opens the key of the row it has read, parses it, encodes it again
and seals it under the new id. When any of that fails, it goes on with a fresh key and says nothing.

* `KeyKept`: what a call knows of the key of a row it has stored.
* `Keyed.step`: all versions of a certificate have one sealed key, unless it is delivered.
* `renewals_keep_key`: along every chain of renewals, the key is the one the chain began with.
-/

namespace Lcm

open Conc Db Svc Issue Ca List

/-- A sealed key is not empty and opens again, and an encoded key parses to itself. -/
structure KeysRoundTrip (P : Platform) : Prop where
  seal_ne_nil : ∀ key pem nonce ad blob, encodeKey P key = .ok pem →
    P.envSeal nonce pem ad = .ok blob → blob ≠ []
  open_seal : ∀ key pem nonce ad blob, encodeKey P key = .ok pem →
    P.envSeal nonce pem ad = .ok blob → P.envOpen blob ad = some pem
  parse_encode : ∀ key pem, encodeKey P key = .ok pem → parseAccountKey P pem = some key

/-- The calls that store a generic certificate which is not the renewal of another. -/
def Call.begins : Call → Bool
  | obtainACMEFor _ _ _ _ _ _ _ | importACME _ _ => true
  | _ => false

/-- Where the key of the first certificate of a chain is from. -/
inductive KeyOrigin (P : Platform) (call : Call) (g : Progress) (row : IssuedCertificate)
    (key : PrivateKey) : Prop where
  /-- it was generated, and the certificate ordered with a CSR for it -/
  | generated (subj : Subjects) (requestID : Option Id) (issuerID : Id) (names : List String)
      (csrPEM : String) (deliverKey autoRenew : Bool)
      (hcall : call = .obtainACMEFor subj requestID issuerID names csrPEM deliverKey autoRenew)
      (hkey : g.key = some key) (hordered : g.OrderedFor P row.sans key)
  /-- it was imported with the certificate -/
  | imported (subj : Subjects) (input : ImportInput) (leaf : X509)
      (hcall : call = .importACME subj input)
      (hkey : parseImportKey P input.keyPEM leaf = encodeKey P key)

/-- Some call has renewed the first certificate and stored the second. -/
def RenewedTo (us : List (Record Database Ev Call)) (a b : Id) : Prop :=
  ∃ (j : Nat) (u : Record Database Ev Call) (old row : IssuedCertificate), us[j]? = some u ∧
    (progress u.hist).copy = some old ∧ row ∈ (progress u.hist).minted ∧ old.id = a ∧ row.id = b

/-- The certificate is in the chain of renewals that begins with the first one. -/
def InChain (us : List (Record Database Ev Call)) : Id → Id → Prop :=
  Relation.ReflTransGen (RenewedTo us)

/-- `MarkKeyDelivered` has been called on the certificate. -/
def MarkedDelivered (us : List (Record Database Ev Call)) (id : Id) : Prop :=
  ∃ (j : Nat) (u : Record Database Ev Call) (subj : Subjects), us[j]? = some u ∧
    u.call = .markKeyDelivered subj id

variable {key : PrivateKey} {pem : String} {row old : IssuedCertificate} {ev : Ev} {id : Id}

namespace KeyChain

/-! ## The key of one row -/

section Rows

variable {P : Platform}

theorem storedKey_of_seal (hlaws : KeysRoundTrip P) {nonce : Nat} (hpem : encodeKey P key = .ok pem)
    (hseal : P.envSeal nonce pem (adCertKey row.id) = .ok row.keySealed) :
    storedKey P row = some key := by
  have hlen : row.keySealed.length > 0 :=
    length_pos_iff.2 (hlaws.seal_ne_nil key pem nonce _ _ hpem hseal)
  rw [storedKey, if_pos hlen, hlaws.open_seal key pem nonce _ _ hpem hseal]
  exact hlaws.parse_encode key pem hpem

theorem encoded_of_parseImportKey {text : String} {leaf : X509}
    (h : parseImportKey P text leaf = .ok pem) : ∃ key, encodeKey P key = .ok pem := by
  unfold parseImportKey at h
  split at h
  · cases h
  split at h
  · cases h
  split at h
  · cases h
  simp only [bind, Except.bind] at h
  split at h
  · cases h
  split at h
  · cases h
  split at h
  · cases h
  · exact ⟨_, h⟩

end Rows

/-! ## What a call knows of the row it has stored -/

/-- The row has the key its chain begins with, or that of the certificate it renews. -/
structure KeyKept (P : Platform) (call : Call) (g : Progress) (row : IssuedCertificate) : Prop where
  begun : call.begins = true → row.keySealed ≠ [] → row.kind = some .generic ∧
    ∃ key, storedKey P row = some key ∧ KeyOrigin P call g row key
  renewed : ∀ old key, g.copy = some old → old.kind = some .generic → storedKey P old = some key →
    storedKey P row = some key ∧ row.kind = some .generic ∧ g.OrderedFor P row.sans key

section Calls

variable {P : Platform} {call : Call} {g : Progress} {row : IssuedCertificate}

theorem target?_eq_none_of_begins (h : call.begins = true) : call.target? = none := by
  cases call <;> first | rfl | cases h

theorem begun_of_new (hlaws : KeysRoundTrip P) (hnew : NewRow P call g row)
    (hloaded : ∀ old, g.copy = some old → call.target?.isSome) (hcall : call.begins = true)
    (hne : row.keySealed ≠ []) : row.kind = some .generic ∧
      ∃ key, storedKey P row = some key ∧ KeyOrigin P call g row key := by
  cases hnew.made with
  | minted subj issuer sid req caRow now serial der hactor hasked hrow hsigned =>
    cases hasked with
    | issued subj' input hissue =>
      subst hissue
      cases hcall
    | renewed old hold =>
      have htarget := hloaded old hold
      rw [target?_eq_none_of_begins hcall] at htarget
      cases htarget
  | reordered subj old ds chain leafPEM restPEM leaf der key pem nonce hactor hold =>
    have htarget := hloaded old hold
    rw [target?_eq_none_of_begins hcall] at htarget
    cases htarget
  | ordered subj r issuerID names csr dk ar ds chain leafPEM restPEM leaf der hobtain hsplit hrow
      hkey =>
      subst hobtain
      obtain ⟨key, hgen, hordered⟩ := hkey hne
      have hsans : row.sans = ds := by rw [hrow]; rfl
      refine ⟨by rw [hrow]; rfl, key, ?_, ?_⟩
      · cases hnew.sealed with
        | absent hnil => exact absurd hnil hne
        | generated key' pem nonce hgen' hpem hseal =>
          obtain rfl : key = key' := Option.some.inj (hgen.symm.trans hgen')
          exact storedKey_of_seal hlaws hpem hseal
        | reused old key' pem nonce hold => cases hloaded old hold
        | imported subj' input himport => cases himport
      · exact .generated subj r issuerID names csr dk ar rfl hgen (hsans ▸ hordered)
  | imported subj input leaf der chain pem ds nonce himport hcerts hpem hseal hrow =>
    subst himport
    obtain ⟨key, hkey⟩ := encoded_of_parseImportKey hpem
    exact ⟨by rw [hrow]; rfl, key, storedKey_of_seal hlaws hkey hseal,
      .imported subj input leaf rfl (hpem.trans hkey.symm)⟩

theorem renewed_of_new (hlaws : KeysRoundTrip P) (hnew : NewRow P call g row)
    (hold : g.copy = some old) (htarget : call.target?.isSome) (hkind : old.kind = some .generic)
    (hkey : storedKey P old = some key) :
    storedKey P row = some key ∧ row.kind = some .generic ∧ g.OrderedFor P row.sans key := by
  cases hnew.made with
  | minted subj issuer sid req caRow now serial der hactor hasked hrow hsigned =>
    cases hasked with
    | issued subj' input hcall =>
      subst hcall
      cases htarget
    | renewed old' hold' hsvid =>
      obtain rfl : old = old' := Option.some.inj (hold.symm.trans hold')
      exact absurd hkind hsvid
  | ordered subj r issuerID names csr dk ar ds chain leafPEM restPEM leaf der hcall
  | imported subj input leaf der chain pem ds nonce hcall =>
    subst hcall
    cases htarget
  | reordered subj old' ds chain leafPEM restPEM leaf der key' pem nonce hactor hold' hkind' hds
      hsplit hrow hkey' hpem hseal hordered =>
      obtain rfl : old = old' := Option.some.inj (hold.symm.trans hold')
      -- the stored key has opened, so there was no need for a fresh one
      obtain rfl : key = key' := by
        rcases hkey' with hkey' | ⟨hnone, -⟩
        · exact Option.some.inj (hkey.symm.trans hkey')
        · rw [hkey] at hnone
          cases hnone
      have hsans : row.sans = ds := by rw [hrow]; rfl
      exact ⟨storedKey_of_seal hlaws hpem hseal, by rw [hrow]; rfl, hsans ▸ hordered⟩

theorem settled_next (hproto : Protocol P call g ev) (hmint : g.minted ≠ []) :
    (g.next ev).copy = g.copy ∧ (g.next ev).key = g.key := by
  constructor
  · rcases (g.steps ev).copy with hsame | ⟨t, id, c, rfl, -⟩
    · exact hsame
    · exact absurd hproto.2.1 hmint
  rcases (g.steps ev).key with hsame | ⟨k, rfl, -⟩
  · exact hsame
  · exact absurd hproto hmint

theorem orderedFor_next {domains : List String} (h : g.OrderedFor P domains key) (ev : Ev) :
    (g.next ev).OrderedFor P domains key := by
  obtain ⟨nonce, csrDER, hcsr, hmem⟩ := h
  exact ⟨nonce, csrDER, hcsr, (g.steps ev).orders csrDER hmem⟩

theorem KeyKept.next (h : KeyKept P call g row) (hcopy : (g.next ev).copy = g.copy)
    (hkey : (g.next ev).key = g.key) : KeyKept P call (g.next ev) row where
  begun hcall hne := by
    obtain ⟨hkind, key, hstored, horigin⟩ := h.begun hcall hne
    refine ⟨hkind, key, hstored, ?_⟩
    cases horigin with
    | generated subj r issuerID names csr dk ar hobtain hgen hordered =>
      exact .generated subj r issuerID names csr dk ar hobtain (hkey.trans hgen)
        (orderedFor_next hordered ev)
    | imported subj input leaf himport hpem => exact .imported subj input leaf himport hpem
  renewed old key hold hkind hstored := by
    rw [hcopy] at hold
    obtain ⟨hrow, hgeneric, hordered⟩ := h.renewed old key hold hkind hstored
    exact ⟨hrow, hgeneric, orderedFor_next hordered ev⟩

theorem keyKept_step (hlaws : KeysRoundTrip P) (hproto : Protocol P call g ev)
    (hloaded : ∀ old, g.copy = some old → call.target?.isSome)
    (h : ∀ row ∈ g.minted, KeyKept P call g row) :
    ∀ row ∈ (g.next ev).minted, KeyKept P call (g.next ev) row := by
  intro row hrow
  have hkept : row ∈ g.minted → KeyKept P call (g.next ev) row := fun hrow =>
    have hsettled := settled_next hproto (ne_nil_of_mem hrow)
    (h row hrow).next hsettled.1 hsettled.2
  rcases Progress.mem_minted_next_cases hrow with hrow | rfl
  · exact hkept hrow
  have hnew : KeyKept P call g row :=
    ⟨begun_of_new hlaws hproto.2 hloaded, fun old key hold =>
      renewed_of_new hlaws hproto.2 hold (hloaded old hold)⟩
  exact hnew.next rfl rfl

end Calls

/-! ## All versions have one key -/

/-- The key of the certificate may have been taken out of its row. -/
def Delivered (us : List (Record Database Ev Call)) (id : Id) : Prop :=
  MarkedDelivered us id ∨
    ∃ (j : Nat) (u : Record Database Ev Call) (subj : Subjects) (input : IssueInput)
      (row : IssuedCertificate), us[j]? = some u ∧ u.call = .issue subj input ∧
        row ∈ (progress u.hist).minted ∧ row.id = id

structure Keyed (P : Platform) (us : List (Record Database Ev Call)) (s : Database) : Prop where
  same : ∀ r r', Version us s r → Version us s r' → r.id = r'.id →
    r.keySealed = r'.keySealed ∨ Delivered us r.id
  kept : ∀ (j : Nat) (u : Record Database Ev Call), us[j]? = some u →
    ∀ row ∈ (progress u.hist).minted, KeyKept P u.call (progress u.hist) row

section Run

variable {P : Platform} {us : List (Record Database Ev Call)} {e : Env} {s s' : Database} {ev : Ev}
  {i : Nat} {t : Record Database Ev Call}

theorem keyed_nil (db : Database) : Keyed P [] db where
  same r r' hr hr' hid := .inl (by rw [eq_of_version_nil hr hr' hid])
  kept j u hu := by cases hu

theorem Delivered.mono {us' : List (Record Database Ev Call)} (h : Delivered us id)
    (hgrow : ∀ (j : Nat) (u : Record Database Ev Call), us[j]? = some u → ∃ u', us'[j]? = some u' ∧ u'.call = u.call ∧ ∀ row ∈ (progress u.hist).minted, row ∈ (progress u'.hist).minted)
    : Delivered us' id := by
  rcases h with ⟨j, u, subj, hu, hcall⟩ | ⟨j, u, subj, input, row, hu, hcall, hrow, hid⟩
  · obtain ⟨u', hu', hsame, -⟩ := hgrow j u hu
    exact .inl ⟨j, u', subj, hu', hsame.trans hcall⟩
  · obtain ⟨u', hu', hsame, hminted⟩ := hgrow j u hu
    exact .inr ⟨j, u', subj, input, row, hu', hsame.trans hcall, hminted row hrow, hid⟩

theorem Delivered.new (h : Delivered us id) (t : Record Database Ev Call) :
    Delivered (us ++ [t]) id :=
  h.mono fun _ u hu =>
    ⟨u, by rwa [getElem?_append_left (List.getElem?_eq_some_iff.1 hu).1], rfl,
      fun _ hrow => hrow⟩

theorem Delivered.push (h : Delivered us id) (hi : us[i]? = some t) (ev : Ev) :
    Delivered (us.set i (t.push ev)) id := by
  refine h.mono fun j u hu => ?_
  by_cases hij : i = j
  · subst hij
    obtain rfl : t = u := Option.some.inj (hi.symm.trans hu)
    refine ⟨t.push ev, getElem?_set_self (List.getElem?_eq_some_iff.1 hi).1, rfl, ?_⟩
    intro row hrow
    rw [Record.push_hist, progress_push]
    exact Progress.mem_minted_next hrow ev
  · exact ⟨u, by rwa [getElem?_set_ne hij], rfl, fun _ hrow => hrow⟩

theorem delivered_of_event (hi : us[i]? = some t) {tenant : Id}
    (hproto : Protocol P t.call (progress t.hist) (.markKeyDelivered tenant id (.ok ()))) :
    Delivered us id := by
  rcases hproto with ⟨subj, hcall, -⟩ | ⟨subj, input, row, hcall, hmint, -, hid⟩
  · exact .inl ⟨i, t, subj, hi, hcall⟩
  · exact .inr ⟨i, t, subj, input, row, hi, hcall, by rw [hmint]; exact mem_singleton_self row,
      hid.symm⟩

theorem Keyed.new (h : Keyed P us s) (c : Call) : Keyed P (us ++ [Config.fresh c s]) s where
  same r r' hr hr' hid :=
    (h.same r r' (version_new hr) (version_new hr') hid).imp_right fun hd => hd.new _
  kept j u hu row hrow := by
    rcases getElem?_append_cases hu with hu | rfl
    · exact h.kept j u hu row hrow
    · cases hrow

theorem Keyed.step (h : Keyed P us s) (hlaws : KeysRoundTrip P) (hV : Versioned us s)
    (hi : us[i]? = some t) (hhap : Happens e s ev s')
    (hproto : Protocol P t.call (progress t.hist) ev)
    (hdraws : ∀ id, ev.Draws e id → Unused us s id) : Keyed P (us.set i (t.push ev)) s' where
  same := by
    refine hV.agree_step hi hhap hproto hdraws (f := IssuedCertificate.keySealed)
      (D := Delivered (us.set i (t.push ev))) ?_ ?_ ?_ ?_
    · exact fun r r' hr hr' hid => (h.same r r' hr hr' hid).imp_right fun hd => hd.push hi ev
    · intro r' hd
      rcases hd.key with hkey | ⟨tenant, rfl⟩
      · exact .inl hkey
      · exact .inr ((delivered_of_event hi hproto).push hi _)
    · exact fun row r' _ _ hkey => hkey
    · exact fun old id => rfl
  kept j u hu := by
    rcases getElem?_set_cases hu with ⟨-, rfl⟩ | ⟨-, hu⟩
    · rw [Record.push_hist, progress_push]
      refine keyKept_step hlaws hproto ?_ (h.kept i t hi)
      intro old hold
      rw [Record.push_call, hV.loaded i t hi old hold]
      rfl
    · exact h.kept j u hu

/-! ## Along a chain -/

theorem marked_of_delivered (hV : Versioned us s) (hi : us[i]? = some t)
    (hcall : ∀ subj input, t.call ≠ .issue subj input) (hrow : row ∈ (progress t.hist).minted)
    (hd : Delivered us row.id) : MarkedDelivered us row.id := by
  rcases hd with hmarked | ⟨j, u, subj, input, row', hu, hissue, hrow', hid⟩
  · exact hmarked
  have hdrawn : row.id ∈ (progress t.hist).drawn := hV.minted i t hi row hrow
  have hdrawn' : row.id ∈ (progress u.hist).drawn := hid ▸ hV.minted j u hu row' hrow'
  by_cases hij : i = j
  · subst hij
    obtain rfl : t = u := Option.some.inj (hi.symm.trans hu)
    exact absurd hissue (hcall subj input)
  · exact absurd hdrawn' (hV.apart i j t u hi hu hij row.id hdrawn)

/-- All versions of the certificate are generic and hold the key. -/
def Holds (P : Platform) (us : List (Record Database Ev Call)) (s : Database) (key : PrivateKey)
    (id : Id) : Prop :=
  ∀ r, Version us s r → r.id = id → defaultKind r.kind = .generic ∧ storedKey P r = some key

theorem holds_of_minted (h : Keyed P us s) (hV : Versioned us s) (hi : us[i]? = some t)
    (hcall : ∀ subj input, t.call ≠ .issue subj input) (hrow : row ∈ (progress t.hist).minted)
    (hmarked : ¬ MarkedDelivered us row.id) (hkind : row.kind = some .generic)
    (hkey : storedKey P row = some key) : Holds P us s key row.id := by
  intro r hr hid
  have hminted : Version us s row := .minted hi hrow
  constructor
  · rw [(hV.home row r hminted hr hid.symm).kind, hkind]
    rfl
  rcases h.same row r hminted hr hid.symm with hsame | hd
  · rw [storedKey, hid, ← hsame, ← hkey, storedKey]
  · exact absurd (marked_of_delivered hV hi hcall hrow hd) hmarked

theorem generic_of_defaultKind {k : Option CertKind} (h : defaultKind k = .generic) :
    k = some .generic := by
  cases k with
  | none => cases h
  | some k => exact congrArg some h

theorem renewed_of_holds (h : Keyed P us s) (hi : us[i]? = some t)
    (hold : (progress t.hist).copy = some old) (hrow : row ∈ (progress t.hist).minted)
    (hholds : Holds P us s key old.id) :
    storedKey P row = some key ∧ row.kind = some .generic ∧
      (progress t.hist).OrderedFor P row.sans key := by
  obtain ⟨hkind, hkey⟩ := hholds old (.held hi hold) rfl
  exact (h.kept i t hi row hrow).renewed old key hold (generic_of_defaultKind hkind) hkey

theorem holds_of_inChain (h : Keyed P us s) (hV : Versioned us s) {a : Id}
    (hfirst : Holds P us s key a) (hquiet : ∀ id, InChain us a id → ¬ MarkedDelivered us id)
    (hchain : InChain us a id) : Holds P us s key id := by
  induction hchain with
  | refl => exact hfirst
  | tail hchain hlast ih =>
    have hend := hquiet _ (hchain.tail hlast)
    obtain ⟨j, u, old, row, hu, hold, hrow, rfl, rfl⟩ := hlast
    obtain ⟨hkey, hkind, -⟩ := renewed_of_holds h hu hold hrow ih
    refine holds_of_minted h hV hu ?_ hrow hend hkind hkey
    intro subj input hcall
    have htarget := hV.loaded j u hu old hold
    rw [hcall] at htarget
    cases htarget

end Run

end KeyChain

open KeyChain

/-- In every run of the calls on certificates in which drawn ids are new, consider a generic
certificate that `ObtainACMEFor` or `ImportACME` has stored with a key, and its chain of renewals. As
long as `MarkKeyDelivered` is not called on the chain, every certificate of it holds the key the chain
began with, and every renewal has ordered with a CSR for that key. -/
theorem renewals_keep_key {P : Platform} (hlaws : KeysRoundTrip P) {db : Database}
    {as : List SysAct} (hcalls : ∀ a ∈ as, a.Calls Call.OnCertificates)
    (hnew : AllMeet P DrawsNew db as) {i : Nat} {t : Record Database Ev Call}
    {row : IssuedCertificate} (hi : (runFrom P db as).records[i]? = some t) (hcall : t.call.begins = true)
    (hrow : row ∈ (progress t.hist).minted) (hne : row.keySealed ≠ [])
    (hquiet : ∀ id, InChain (runFrom P db as).records row.id id →
      ¬ MarkedDelivered (runFrom P db as).records id) :
    ∃ key, KeyOrigin P t.call (progress t.hist) row key ∧
      ∀ id, InChain (runFrom P db as).records row.id id →
        (∀ c ∈ (runFrom P db as).store.certificates.rows, c.id = id → storedKey P c = some key) ∧
          ∀ (j : Nat) (u : Record Database Ev Call) (old succ : IssuedCertificate),
            (runFrom P db as).records[j]? = some u → (progress u.hist).copy = some old →
              old.id = id → succ ∈ (progress u.hist).minted →
                storedKey P succ = some key ∧ (progress u.hist).OrderedFor P succ.sans key := by
  obtain ⟨hV, hkeyed⟩ : Versioned (runFrom P db as).records (runFrom P db as).store ∧
      Keyed P (runFrom P db as).records (runFrom P db as).store := by
    refine versioned_exec (fun _ h => h) (fun _ _ => trivial) hcalls hnew (keyed_nil db) ?_ ?_
    · exact fun us c s h => h.new c
    · intro us i t e s ev s' hi _ hV h hhap hproto hdraws
      exact h.step hlaws hV hi hhap hproto hdraws
  obtain ⟨hkind, key, hkey, horigin⟩ := (hkeyed.kept i t hi row hrow).begun hcall hne
  have hfirst : Holds P (runFrom P db as).records (runFrom P db as).store key row.id :=
    holds_of_minted hkeyed hV hi (fun _ _ h => by rw [h] at hcall; cases hcall) hrow (hquiet row.id .refl) hkind hkey
  refine ⟨key, horigin, fun id hchain => ?_⟩
  have hholds := holds_of_inChain hkeyed hV hfirst hquiet hchain
  refine ⟨fun c hc hid => (hholds c (.stored hc) hid).2, fun j u old succ hu hold hid hsucc => ?_⟩
  subst hid
  obtain ⟨hsame, -, hordered⟩ := renewed_of_holds hkeyed hu hold hsucc hholds
  exact ⟨hsame, hordered⟩

/-! ## Two renewals in the sample deployment -/

namespace Sample

/-- The sample platform, with an encoding for the keys it can parse. -/
def acmePlatform : Platform :=
  { platform with
    marshalPKCS8 := fun k => match k.pub with
      | .ecdsa bits n =>
        if bits = 256 ∧ n < 256 then .ok [n.toUInt8]
        else .error (.external "x509: unknown key type")
      | _ => .error (.external "x509: unknown key type") }

theorem encodeKey_acme (h : encodeKey acmePlatform key = .ok pem) :
    ∃ n, n < 256 ∧ key = ⟨.ecdsa 256 n⟩ ∧ pem = text [n.toUInt8] := by
  obtain ⟨pub⟩ := key
  cases pub with
  | ecdsa bits n =>
    by_cases hn : bits = 256 ∧ n < 256
    · obtain ⟨rfl, hlt⟩ := hn
      simp only [encodeKey, acmePlatform, hlt, and_self, if_true, Except.map] at h
      exact ⟨n, hlt, rfl, (Except.ok.inj h).symm⟩
    · simp only [encodeKey, acmePlatform, hn, if_false, Except.map] at h
      cases h
  | _ => cases h

theorem keysRoundTrip : KeysRoundTrip acmePlatform where
  seal_ne_nil key pem nonce ad blob hpem hseal := by
    obtain ⟨n, -, -, rfl⟩ := encodeKey_acme hpem
    cases hseal
    simp [bytes_text]
  open_seal key pem nonce ad blob hpem hseal := by
    obtain ⟨n, -, -, rfl⟩ := encodeKey_acme hpem
    cases hseal
    show envOpen _ _ = _
    simp [envOpen, bytes_text]
  parse_encode key pem hpem := by
    obtain ⟨n, hlt, rfl, rfl⟩ := encodeKey_acme hpem
    have hne : text [n.toUInt8] ≠ "" := by
      intro h
      have := congrArg bytes h
      rw [bytes_text] at this
      cases this
    have hbyte : n.toUInt8.toNat = n := Nat.mod_eq_of_lt hlt
    simp [parseAccountKey, acmePlatform, platform, hne, bytes_text, hbyte]

/-- An ACME issuer of tenant 1. -/
def acmeRow : Issuer :=
  ⟨6, 1, "public", .acme, "", true, none, "", "", "", "", bytes (adIssuer 6) ++ bytes "A", true,
    none, none⟩

def withAcme : Database := { database with issuers := ⟨[issuerRow, acmeRow], by decide⟩ }

/-- An order, the renewal of its certificate, and the renewal of that one. -/
def orderAndRenew : List SysAct :=
  .spawn (.obtainACMEFor admin none 6 ["a.example"] "" false true) :: steps 0 20 10 ++
    .spawn (.renew admin 10) :: steps 1 20 20 ++ .spawn (.renew admin 20) :: steps 2 20 30

/-- The certificate thread `i` has renewed, and the one it has stored. -/
def renewedTo? (cfg : SysConfig) (i : Nat) : Option (Id × Id) :=
  cfg.records[i]?.bind fun u => (progress u.hist).copy.bind fun old =>
    (progress u.hist).minted.head?.map fun row => (old.id, row.id)

theorem renewedTo_of {cfg : SysConfig} {i : Nat} {a b : Id} (h : renewedTo? cfg i = some (a, b)) :
    RenewedTo cfg.records a b := by
  obtain ⟨u, hu, h⟩ := Option.bind_eq_some_iff.1 h
  obtain ⟨old, hold, h⟩ := Option.bind_eq_some_iff.1 h
  obtain ⟨row, hrow, h⟩ := Option.map_eq_some_iff.1 h
  obtain ⟨rfl, rfl⟩ := Prod.mk.inj h
  exact ⟨i, u, old, row, hu, hold, mem_of_head? hrow, rfl, rfl⟩

end Sample

open Sample in
set_option maxRecDepth 100000 in
/-- The third certificate has the key of the first. -/
theorem renewals_keep_key_twice :
    ∃ key, (∃ c ∈ (runFrom acmePlatform withAcme orderAndRenew).store.certificates.rows,
        c.id = 10 ∧ storedKey acmePlatform c = some key) ∧
      ∃ c ∈ (runFrom acmePlatform withAcme orderAndRenew).store.certificates.rows,
        c.id = 30 ∧ storedKey acmePlatform c = some key := by
  have hchecked : AllMeet acmePlatform (fun cfg a => drawsNew cfg a = true) withAcme
      orderAndRenew := by decide
  have hcalls : ∀ a ∈ orderAndRenew, a.Calls Call.OnCertificates := by
    simp [orderAndRenew, steps, Act.Calls, Call.OnCertificates]
  have hfirst : ((runFrom acmePlatform withAcme orderAndRenew).records[0]?.any fun t =>
      t.call.begins && (progress t.hist).minted.any fun row =>
        row.id == 10 && row.keySealed != []) = true := by decide
  have hnone : ((runFrom acmePlatform withAcme orderAndRenew).records.all fun u =>
      u.call.begins || u.call.renews?.isSome) = true := by decide
  have hrows : (∃ c ∈ (runFrom acmePlatform withAcme orderAndRenew).store.certificates.rows,
      c.id = 10) ∧ ∃ c ∈ (runFrom acmePlatform withAcme orderAndRenew).store.certificates.rows,
      c.id = 30 := by decide
  have hedge : RenewedTo (runFrom acmePlatform withAcme orderAndRenew).records 10 20 :=
    renewedTo_of (i := 1) (by decide)
  have hedge' : RenewedTo (runFrom acmePlatform withAcme orderAndRenew).records 20 30 :=
    renewedTo_of (i := 2) (by decide)
  obtain ⟨t, hi, ht⟩ := (Option.any_eq_true _ _).1 hfirst
  simp only [Bool.and_eq_true, any_eq_true, beq_iff_eq, bne_iff_ne] at ht
  obtain ⟨hcall, row, hrow, hid, hne⟩ := ht
  have hquiet : ∀ id, ¬ MarkedDelivered (runFrom acmePlatform withAcme orderAndRenew).records id := by
    rintro id ⟨j, u, subj, hu, hmark⟩
    have hcall := all_eq_true.1 hnone u (mem_of_getElem? hu)
    rw [hmark] at hcall
    cases hcall
  obtain ⟨key, -, hkeys⟩ := renewals_keep_key keysRoundTrip hcalls
    (Config.Meets.mono _ drawsNew_of_check hchecked) hi hcall hrow hne fun id _ => hquiet id
  rw [hid] at hkeys
  obtain ⟨⟨c, hc, hcid⟩, d, hd, hdid⟩ := hrows
  exact ⟨key, ⟨c, hc, hcid, (hkeys 10 .refl).1 c hc hcid⟩, d, hd, hdid,
    (hkeys 30 ((Relation.ReflTransGen.single hedge).tail hedge')).1 d hd hdid⟩

end Lcm
