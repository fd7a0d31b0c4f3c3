import Lcm.Effects

/-!
# The protocol of the certificate calls

A call on certificates reads a row, mints at most one certificate, and then marks, links or
reads back. `Progress` is what a call has done so far, read off its events; `Protocol` says
which event may come next, and `Finish` what is known when the call returns.

* `certificates P ops` is the specification of the calls `ops`: every step has the effect of
  its event and keeps to the protocol.
* `sound_certificates`: every call on certificates meets it, whatever the other calls do.
-/

namespace Lcm

open Conc Db Svc Issue Ca List

variable (P : Platform)

/-! ## What a call has done -/

/-- What a call has done so far. -/
structure Progress where
  /-- the row it works on, as it was read -/
  copy : Option IssuedCertificate
  /-- the rows the renewal scan returned -/
  scanned : List IssuedCertificate
  /-- the ids it has drawn -/
  drawn : List Id
  /-- the key it generated -/
  key : Option PrivateKey
  /-- the certificates it stored -/
  minted : List IssuedCertificate
  /-- the old certificate has been linked to its successor -/
  linked : Bool
  /-- a key has been marked as delivered -/
  delivered : Bool
  /-- the certificate has been revoked -/
  revoked : Bool
  /-- a repository call after the one that stores the certificate failed -/
  lost : Bool
  /-- the CSRs of the orders it has placed -/
  orders : List Blob

variable {g : Progress} {row old : IssuedCertificate} {call : Call} {id t certID : Id}
  {domains : List String} {subj : Subjects} {req : MintReq}
  {Q : Progress → Except Err Bundle → Prop} {csrPEM : String} {deliverKey : Bool}

namespace Progress

/-- Nothing done yet. -/
def start : Progress := ⟨none, [], [], none, [], false, false, false, false, []⟩

/-- One more event. -/
def next (g : Progress) : Ev → Progress
  | .getCertificate _ _ (.ok c) => { g with copy := some c }
  | .dueForRenewal (.ok cs) => { g with scanned := cs }
  | .newID id => { g with drawn := g.drawn ++ [id] }
  | .genKey (some k) => { g with key := some k }
  | .order csrDER _ _ => { g with orders := g.orders ++ [csrDER] }
  | .insertCertificate row (.ok _) => { g with minted := g.minted ++ [row] }
  | .setCertificateStatus _ _ _ _ (.ok _) => { g with linked := true }
  | .setCertificateStatus _ _ _ _ (.error _) => { g with lost := true }
  | .markKeyDelivered _ _ (.ok _) => { g with delivered := true }
  | .markKeyDelivered _ _ (.error _) => { g with lost := true }
  | .readBack _ _ (.error _) => { g with lost := true }
  | .revoke _ _ (.ok _) => { g with revoked := true }
  | _ => g

/-- Which events change what. -/
structure Steps (g : Progress) (ev : Ev) (g' : Progress) : Prop where
  copy : g'.copy = g.copy ∨ ∃ t id c, ev = .getCertificate t id (.ok c) ∧ g'.copy = some c
  drawn : g'.drawn = g.drawn ∨ ∃ id, ev = .newID id ∧ g'.drawn = g.drawn ++ [id]
  key : g'.key = g.key ∨ ∃ k, ev = .genKey (some k) ∧ g'.key = some k
  minted : g'.minted = g.minted ∨
    ∃ row, ev = .insertCertificate row (.ok ()) ∧ g'.minted = g.minted ++ [row]
  linked : g'.linked = g.linked ∨
    ∃ t id st sup, ev = .setCertificateStatus t id st sup (.ok ()) ∧ g'.linked = true
  lost : g'.lost = g.lost ∨
    (∃ t id st sup err, ev = .setCertificateStatus t id st sup (.error err)) ∨
    (∃ t id err, ev = .markKeyDelivered t id (.error err)) ∨
    ∃ t id err, ev = .readBack t id (.error err)
  delivered : g'.delivered = g.delivered ∨ ∃ t id, ev = .markKeyDelivered t id (.ok ())
  revoked : g'.revoked = g.revoked ∨ ∃ t id, ev = .revoke t id (.ok ())
  orders : ∀ csrDER ∈ g.orders, csrDER ∈ g'.orders

theorem steps (g : Progress) (ev : Ev) : g.Steps ev (g.next ev) := by
  unfold next
  split <;> constructor <;> simp +contextual

theorem copy_next (h : g.copy.isSome) (ev : Ev) : (g.next ev).copy.isSome := by
  rcases (g.steps ev).copy with hc | ⟨t, id, c, -, hc⟩
  · rwa [hc]
  · rw [hc]
    rfl

theorem copy_next_cases (heff : Effect s ev s') (h : (g.next ev).copy = some row) :
    g.copy = some row ∨
      ∃ t id, ev = .getCertificate t id (.ok row) ∧ s' = s ∧ s.certificate? t id = some row := by
  rcases (g.steps ev).copy with hc | ⟨t, id, c, rfl, hc⟩
  · exact .inl (hc ▸ h)
  rw [hc] at h
  cases h
  exact .inr ⟨t, id, rfl, heff.1, heff.2 row rfl⟩

theorem mem_minted_next (h : row ∈ g.minted) (ev : Ev) : row ∈ (g.next ev).minted := by
  rcases (g.steps ev).minted with hm | ⟨row', -, hm⟩
  · rwa [hm]
  · rw [hm]
    exact mem_append_left _ h

theorem mem_minted_next_cases (h : row ∈ (g.next ev).minted) :
    row ∈ g.minted ∨ ev = .insertCertificate row (.ok ()) := by
  rcases (g.steps ev).minted with hm | ⟨row', rfl, hm⟩
  · exact .inl (hm ▸ h)
  rw [hm, mem_append, mem_singleton] at h
  rcases h with h | rfl
  · exact .inl h
  · exact .inr rfl

theorem minted_ne_nil_next (h : g.minted ≠ []) (ev : Ev) : (g.next ev).minted ≠ [] := by
  obtain ⟨row, hrow⟩ := exists_mem_of_ne_nil _ h
  exact ne_nil_of_mem (mem_minted_next hrow ev)

theorem linked_next (h : g.linked = true) (ev : Ev) : (g.next ev).linked = true := by
  rcases (g.steps ev).linked with hl | ⟨t, id, st, sup, -, hl⟩
  · rwa [hl]
  · exact hl

end Progress

/-- What a call has done by the end of its events. -/
def progress (hist : List Ev) : Progress := hist.foldl Progress.next .start

@[simp] theorem progress_nil : progress [] = .start := rfl

@[simp] theorem progress_push (hist : List Ev) (ev : Ev) :
    progress (hist ++ [ev]) = (progress hist).next ev := by
  simp [progress, foldl_append]

/-! ## What a call is about -/

namespace Call

/-- The certificate a call renews, with its tenant. -/
def renews? : Call → Option (Id × Id)
  | renew subj certID => some (subj.tenantID, certID)
  | renewSystem tenantID certID => some (tenantID, certID)
  | renewOne cert => some (cert.tenantID, cert.id)
  | _ => none

/-- The certificate a call reads and works on, with its tenant. -/
def target? : Call → Option (Id × Id)
  | updateCertificate subj id _ => some (subj.tenantID, id)
  | downloadKey subj certID => some (subj.tenantID, certID)
  | downloadForService tenantID _ certID _ => some (tenantID, certID)
  | c => c.renews?

/-- The calls that hand out a stored key. -/
def opensKey : Call → Bool
  | downloadKey _ _ | downloadForService _ _ _ _ => true
  | _ => false

theorem target?_of_renews? {x : Id × Id} (h : call.renews? = some x) : call.target? = some x := by
  cases call <;> first | exact h | cases h

/-- The tenant a call stores certificates for. -/
def tenant? : Call → Option Id
  | issue subj _ | obtainACMEFor subj _ _ _ _ _ _ | importACME subj _ => some subj.tenantID
  | c => c.renews?.map Prod.fst

/-- On whose behalf a call stores certificates. -/
def actor? : Call → Option Subjects
  | issue subj _ | obtainACMEFor subj _ _ _ _ _ _ | importACME subj _ | renew subj _ => some subj
  | renewSystem tenantID _ => some ⟨tenantID, "", ["admin"], renewSystemID⟩
  | renewOne cert => some ⟨cert.tenantID, "", ["admin"], renewSystemID⟩
  | _ => none

/-- The request whose order a call places. -/
def request? : Call → Option Id
  | obtainACMEFor _ requestID _ _ _ _ _ => requestID
  | _ => none

/-- The calls that remove certificates or give them another status at will. -/
def Rewrites : Call → Prop
  | deleteCertificate _ _ | importBackup _ _ _ => True
  | _ => False

def OnCertificates : Call → Prop
  | approveRequest _ _ _ | rejectRequest _ _ _ | cancelJob _ _ | retryJob _ _
  | claimDueJobs _ _ _ | processJob _ | once | createIssuer _ _ | updateIssuer _ _ _
  | deleteIssuer _ _ | ensureCA _ _ | signLeaf _ _ _ _ _ | enroll _ _ _ _ => False
  | _ => True

end Call

/-- The key a call returns. -/
def Value.key? : Value → Option String
  | bundle b => if b.keyPEM = "" then none else some b.keyPEM
  | key pem => some pem
  | _ => none

/-! ## The protocol -/

/-- Where the sealed key of a new row comes from. -/
inductive SealedBy (call : Call) (g : Progress) (row : IssuedCertificate) : Prop where
  /-- the request brought its own key, or none -/
  | absent (h : row.keySealed = [])
  /-- the key the call generated -/
  | generated (key : PrivateKey) (pem : String) (nonce : Nat) (hkey : g.key = some key)
      (hpem : encodeKey P key = .ok pem)
      (hseal : P.envSeal nonce pem (adCertKey row.id) = .ok row.keySealed)
  /-- the key of the certificate that is renewed, which only an ACME renewal takes over -/
  | reused (old : IssuedCertificate) (key : PrivateKey) (pem : String) (nonce : Nat)
      (hold : g.copy = some old) (hkind : old.kind = some .generic)
      (hkey : storedKey P old = some key)
      (hpem : encodeKey P key = .ok pem)
      (hseal : P.envSeal nonce pem (adCertKey row.id) = .ok row.keySealed)
  /-- a key brought from elsewhere -/
  | imported (subj : Subjects) (input : ImportInput) (hcall : call = .importACME subj input)

/-- What an SVID is minted for: the input of `Issue`, or the certificate that is renewed. -/
inductive AskedFor (call : Call) (g : Progress) (issuerID : Id) (sid : Csr.SPIFFEID)
    (req : MintReq) : Prop where
  | issued (subj : Subjects) (input : IssueInput) (hcall : call = .issue subj input)
      (hreq : req = issueReq input)
  | renewed (old : IssuedCertificate) (hold : g.copy = some old) (hkind : old.kind ≠ some .generic)
      (hsid : Csr.parseSPIFFEID P old.spiffeID = some sid) (hissuer : issuerID = old.issuerID)
      (hreq : req = renewReq old)

/-- An order for the domains has been placed with a CSR for the key. -/
def Progress.OrderedFor (g : Progress) (domains : List String) (key : PrivateKey) : Prop :=
  ∃ nonce csrDER, P.createCertificateRequest nonce (domains.headD "") domains key = .ok csrDER ∧
    csrDER ∈ g.orders

/-- What a new row is made of. -/
inductive Made (call : Call) (g : Progress) (row : IssuedCertificate) : Prop where
  /-- an SVID from the CA of the issuer -/
  | minted (subj : Subjects) (issuer : Issuer) (sid : Csr.SPIFFEID) (req : MintReq) (caRow : CA)
      (now : Time) (serial : Nat) (der : Blob) (hactor : call.actor? = some subj)
      (hasked : AskedFor P call g issuer.id sid req)
      (hrow : row =
        mintRow P subj issuer sid req caRow row.id row.keySealed now serial der)
      (hsigned : ∃ nonce uri pub parent key,
        P.createCertificate nonce (mintLeaf sid req uri pub now serial) parent pub key = .ok der)
  /-- the result of an order -/
  | ordered (subj : Subjects) (requestID : Option Id) (issuerID : Id) (names : List String)
      (csrPEM : String) (deliverKey autoRenew : Bool) (domains : List String)
      (chain leafPEM restPEM : String) (leaf : X509) (der : Blob)
      (hcall : call = .obtainACMEFor subj requestID issuerID names csrPEM deliverKey autoRenew)
      (hsplit : splitChain P chain = .ok (leafPEM, restPEM, leaf, der))
      (hrow : row = genericRow P subj.tenantID row.issuerID row.id requestID domains leafPEM
        restPEM leaf der row.keySealed autoRenew subj.actorID (userPtr subj))
      (hkey : row.keySealed ≠ [] → ∃ key, g.key = some key ∧ g.OrderedFor P domains key)
  /-- the result of the order that renews a generic certificate -/
  | reordered (subj : Subjects) (old : IssuedCertificate) (domains : List String)
      (chain leafPEM restPEM : String) (leaf : X509) (der : Blob) (key : PrivateKey)
      (pem : String) (nonce : Nat) (hactor : call.actor? = some subj) (hold : g.copy = some old)
      (hkind : old.kind = some .generic) (hdomains : renewDomains P old = .ok domains)
      (hsplit : splitChain P chain = .ok (leafPEM, restPEM, leaf, der))
      (hrow : row = genericRow P subj.tenantID old.issuerID row.id none domains leafPEM restPEM
        leaf der row.keySealed old.autoRenew old.owner (userPtr subj))
      (hkey : storedKey P old = some key ∨ storedKey P old = none ∧ g.key = some key)
      (hpem : encodeKey P key = .ok pem)
      (hseal : P.envSeal nonce pem (adCertKey row.id) = .ok row.keySealed)
      (hordered : g.OrderedFor P domains key)
  /-- a certificate from elsewhere -/
  | imported (subj : Subjects) (input : ImportInput) (leaf : X509) (der : Blob) (chain pem : String)
      (domains : List String) (nonce : Nat) (hcall : call = .importACME subj input)
      (hcerts : parseImportCerts P input.certPEM input.chainPEM = .ok (leaf, der, chain))
      (hpem : parseImportKey P input.keyPEM leaf = .ok pem)
      (hseal : P.envSeal nonce pem (adCertKey row.id) = .ok row.keySealed)
      (hrow : row = genericRow P subj.tenantID input.issuerID row.id none domains
        (Csr.encodeCertPEM P der) chain leaf der row.keySealed input.autoRenew subj.actorID
        (userPtr subj))

/-- What is known of a row a call stores. -/
structure NewRow (call : Call) (g : Progress) (row : IssuedCertificate) : Prop where
  tenant : call.tenant? = some row.tenantID
  request : row.requestID = call.request?
  status : row.status = .active
  supersededBy : row.supersededBy = none
  drawn : row.id ∈ g.drawn
  /-- `Issue` stores SVIDs; the kind is left to the store -/
  kind : ∀ subj input, call = .issue subj input → row.kind = none
  sealed : SealedBy P call g row
  /-- a renewal stores only after it has read the certificate it renews -/
  loaded : call.renews?.isSome → g.copy.isSome
  made : Made P call g row

/-- The event may be the next one of the call. -/
def Protocol (call : Call) (g : Progress) : Ev → Prop
  | .look | .newID _ | .order _ _ _ | .audit _ | .read | .readIssuer _ | .sign _ _ => True
  | .genKey _ => g.minted = []
  | .getCertificate t id _ => g.copy = none ∧ g.minted = [] ∧ call.target? = some (t, id)
  | .dueForRenewal _ => call = .runOnce
  | .insertCertificate row _ => g.minted = [] ∧ NewRow P call g row
  | .setCertificateStatus t id st sup _ =>
    ∃ old row, g.copy = some old ∧ g.minted = [row] ∧ call.renews? = some (t, id) ∧
      old.id = id ∧ st = old.status ∧ sup = some row.id
  | .markKeyDelivered t id _ =>
    (∃ subj, call = .markKeyDelivered subj id ∧ t = subj.tenantID) ∨
      ∃ subj input row, call = .issue subj input ∧ g.minted = [row] ∧ t = row.tenantID ∧
        id = row.id
  | .readBack t id _ =>
    (∃ row, g.minted = [row] ∧ t = row.tenantID ∧ id = row.id) ∧
      (call.renews?.isSome → g.linked = true)
  | .updateCertificate row _ =>
    ∃ subj id input old, call = .updateCertificate subj id input ∧ g.copy = some old ∧
      old.id = id ∧ old.tenantID = subj.tenantID ∧ row = CertificateUpdate.apply input subj old
  | .revoke t id _ => ∃ subj reason, call = .revoke subj id reason ∧ t = subj.tenantID
  | .deleteCertificate t id _ => ∃ subj, call = .deleteCertificate subj id ∧ t = subj.tenantID
  | .completeRequest t id _ _ =>
    ∃ subj cert err, call = .finishACME subj id cert err ∧ t = subj.tenantID
  | .importBackup t doc mode _ =>
    ∃ subj, call = .importBackup subj doc mode ∧ t = subj.tenantID
  | _ => False

/-- Where a key comes from that a call returns. -/
inductive ShownBy (call : Call) (g : Progress) (pem : String) : Prop where
  /-- the key of the certificate the call minted -/
  | issued (row : IssuedCertificate) (key : PrivateKey) (hrow : g.minted = [row])
      (hkey : g.key = some key) (hpem : encodeKey P key = .ok pem)
  /-- the stored key of the row it read -/
  | opened (old : IssuedCertificate) (hopens : call.opensKey) (hold : g.copy = some old)
      (hne : old.keySealed ≠ [])
      (hopen : P.envOpen old.keySealed (adCertKey old.id) = some pem)

/-- What is known when the call returns. -/
structure Finish (call : Call) (g : Progress) (r : Except Err Value) : Prop where
  /-- a renewal that has minted has linked the old certificate, or failed to -/
  linked : call.renews?.isSome → g.minted ≠ [] → g.linked = true ∨ g.lost = true
  /-- a call that has minted returns an error only if a later repository call failed -/
  lost : ∀ e, r = .error e → g.minted ≠ [] → g.lost = true
  /-- a call that returns without an error has lost nothing, unless it swallows errors -/
  kept : ∀ v, r = .ok v → (∀ cert, call ≠ .renewOne cert) → g.lost = false
  revoked : ∀ subj id reason v, call = .revoke subj id reason → r = .ok v → g.revoked = true
  /-- the certificate of the bundle is the one that was minted -/
  bundle : ∀ subj input b, call = .issue subj input → r = .ok (.bundle b) →
    ∃ row, g.minted = [row] ∧ b.certificate.id = row.id
  /-- a key that is not to be retained has been marked before it is returned -/
  delivered : ∀ subj input b, call = .issue subj input → r = .ok (.bundle b) →
    b.keyPEM ≠ "" → input.retainKey = false → g.delivered = true
  key : ∀ v pem, r = .ok v → v.key? = some pem → ShownBy P call g pem

def certificateMonitor (call : Call) : Monitor Progress Env Database Ev Call where
  next := Progress.next
  ok g e s ev s' := Happens e s ev s' ∧ Protocol P call g ev
  starts g c := call = .runOnce ∧ ∃ cert ∈ g.scanned, c = .renewOne cert

/-- The specification of the calls `ops` on certificates. -/
def certificates (ops : Call → Prop) : Spec Progress Env Database Ev Call (Except Err Value) where
  ops := ops
  mon := certificateMonitor P
  start _ := .start
  post := Finish P

theorem ignores_quiet (call : Call) : (certificateMonitor P call).Ignores Ev.Quiet where
  next_eq g e he := by cases e <;> first | rfl | exact he.elim
  ok_self g _ s e he := by
    refine ⟨⟨effect_quiet he.silent, ?_⟩, ?_⟩
    · cases e <;> trivial
    · cases e <;> trivial

theorem ignores_sign (call : Call) : (certificateMonitor P call).Ignores Ev.Signs where
  next_eq g e he := by cases e <;> first | rfl | exact he.elim
  ok_self g _ s e he := by
    refine ⟨⟨effect_quiet he.silent, ?_⟩, ?_⟩
    · cases e <;> trivial
    · cases e <;> trivial

/-! ## The steps of the calls -/

section Steps

variable {P} {call : Call} {g : Progress} {α : Type} {sid : Csr.SPIFFEID} {issuer : Issuer}

theorem wp_loadCertificate {Q : Progress → Except Err IssuedCertificate → Prop}
    (hcopy : g.copy = none) (hmint : g.minted = []) (hcall : call.target? = some (t, id))
    (herr : ∀ e, Q g (.error e))
    (hok : ∀ old, old.id = id → old.tenantID = t → Q { g with copy := some old } (.ok old)) :
    (certificateMonitor P call).wp (loadCertificate t id).run Q g := by
  refine (wp_repo _ _ _ _).2 fun e s => ?_
  have heff := effect_getCertificate t id e s
  refine ⟨⟨⟨heff, trivial⟩, hcopy, hmint, hcall⟩, ?_⟩
  cases hr : (transact (Sql.getCertificate t id) e s).1 with
  | error err => exact herr err
  | ok old =>
    have hrow := Database.certificate?_eq_some.1 (heff.2 old hr)
    exact hok old hrow.2.1 hrow.2.2

theorem yields_readIssuer_id {ev : Except Err Issuer → Ev} (t id : Id) :
    Yields (fun i : Issuer => i.id = id) (repo ev (Sql.getIssuer t id)) := by
  intro e s i hi
  have hfound := found_eq_ok.1 (transact_query_ok hi)
  exact (Table.get?_eq_some_iff.1 (Option.filter_eq_some_iff.1 hfound).1).2

theorem wp_newID_bind {f : Id → Svc α} {Q : Progress → Except Err α → Prop}
    (h : ∀ id, (certificateMonitor P call).wp (f id).run Q { g with drawn := g.drawn ++ [id] }) :
    (certificateMonitor P call).wp (newID >>= f).run Q g := by
  intro e s
  exact ⟨⟨⟨rfl, rfl⟩, trivial⟩, h (e.newID 0)⟩

theorem wp_generateKey {Q : Progress → Except Err PrivateKey → Prop} (hmint : g.minted = [])
    (herr : ∀ e, Q g (.error e)) (hok : ∀ key, Q { g with key := some key } (.ok key)) :
    (certificateMonitor P call).wp generateKey.run Q g := by
  unfold generateKey
  rw [Svc.wp_bind, wp_ask]
  intro e s
  refine ⟨⟨⟨rfl, rfl⟩, hmint⟩, ?_⟩
  cases hk : e.key with
  | some key => exact hok key
  | none => exact herr _

theorem wp_obtain_bind {csrDER : Blob} {f : String → Svc α} {Q : Progress → Except Err α → Prop}
    (herr : ∀ e, Q { g with orders := g.orders ++ [csrDER] } (.error e))
    (hok : ∀ chain, (certificateMonitor P call).wp (f chain).run Q { g with orders := g.orders ++ [csrDER] })
    : (certificateMonitor P call).wp (obtain csrDER domains >>= f).run Q g := by
  unfold obtain
  rw [Svc.wp_bind, Svc.wp_bind, wp_ask]
  intro e s
  refine ⟨⟨⟨rfl, trivial⟩, trivial⟩, ?_⟩
  cases e.order with
  | error err => exact herr err
  | ok chain => exact hok chain

theorem wp_storeCertificate {log : CertLogRow} {u : String} {Q : Progress → Except Err Unit → Prop}
    (hmint : g.minted = []) (hrow : NewRow P call g row) (herr : ∀ e, Q g (.error e))
    (hok : Q { g with minted := [row] } (.ok ())) :
    (certificateMonitor P call).wp (storeCertificate row log u).run Q g := by
  refine wp_repo_cases ?_ herr ?_
  · exact fun e s => ⟨⟨effect_storeCertificate row log u e s, trivial⟩, hmint, hrow⟩
  rintro ⟨⟩
  show Q { g with minted := g.minted ++ [row] } (.ok ())
  rw [hmint]
  exact hok

theorem wp_recordDelivery {Q : Progress → Except Err Unit → Prop}
    (hev : (∃ subj, call = .markKeyDelivered subj id ∧ t = subj.tenantID) ∨ ∃ subj input row, call = .issue subj input ∧ g.minted = [row] ∧ t = row.tenantID ∧ id = row.id)
    (herr : ∀ e, Q { g with lost := true } (.error e))
    (hok : Q { g with delivered := true } (.ok ())) :
    (certificateMonitor P call).wp (recordDelivery t id).run Q g := by
  refine wp_repo_cases ?_ herr fun _ => hok
  intro e s
  exact ⟨⟨effect_markKeyDelivered t id e s, answers_updateCertificateRow _ _ _ _ e s⟩, hev⟩

theorem wp_supersede {Q : Progress → Except Err Unit → Prop} (hcopy : g.copy = some old)
    (hmint : g.minted = [row]) (hcall : call.renews? = some (t, old.id))
    (herr : ∀ e, Q { g with lost := true } (.error e)) (hok : Q { g with linked := true } (.ok ()))
    : (certificateMonitor P call).wp (supersede t old row.id).run Q g := by
  refine wp_repo_cases ?_ herr fun _ => hok
  intro e s
  exact ⟨⟨effect_setCertificateStatus _ _ _ _ e s, answers_updateCertificateRow _ _ _ _ e s⟩,
    old, row, hcopy, hmint, hcall, rfl, rfl, rfl⟩

theorem wp_viewStored {Q : Progress → Except Err CertificateView → Prop} (hmint : g.minted = [row])
    (ht : subj.tenantID = row.tenantID) (hlink : call.renews?.isSome → g.linked = true)
    (herr : ∀ e, Q { g with lost := true } (.error e)) (hok : ∀ v, Q g (.ok v)) :
    (certificateMonitor P call).wp (viewStored subj row.id).run Q g := by
  unfold viewStored
  rw [Svc.wp_bind]
  refine wp_repo_cases ?_ herr ?_
  · intro e s
    exact ⟨⟨effect_getCertificate _ _ e s, answers_getCertificate _ _ e s⟩,
      ⟨row, hmint, ht, rfl⟩, hlink⟩
  intro stored
  refine wp_returns_bind (ignores_quiet P call) (quiet_permissionsOn _ _)
    (returns_permissionsOn _ _) fun perms _ => ?_
  exact wp_returns (ignores_quiet P call) (quiet_certView _ _) (returns_certView _ _)
    fun v _ => hok v

theorem wp_sealKey_bind {pem : String} {f : Blob → Svc α} {Q : Progress → Except Err α → Prop}
    (herr : ∀ e, Q g (.error e))
    (hok : ∀ blob n, P.envSeal n pem (adCertKey certID) = .ok blob →
      (certificateMonitor P call).wp (f blob).run Q g) :
    (certificateMonitor P call).wp (sealKey P certID pem >>= f).run Q g := by
  refine wp_only_bind_yields (ignores_quiet P call) (quiet_sealKey P certID pem)
    (R := fun b => ∃ n, P.envSeal n pem (adCertKey certID) = .ok b) ?_ herr ?_
  · exact yields_askExcept fun e b hb => ⟨e.nonce, hb⟩
  · rintro blob ⟨n, hseal⟩
    exact hok blob n hseal

/-! ## Minting -/

/-- The key side of a new certificate: none when the request brings its own, else the key that
has been generated, sealed for the certificate. -/
def KeyFor (P : Platform) (certID : Id) (deliverKey : Bool) (key : Option PrivateKey)
    (keyPEM : String) (keySealed : Blob) : Prop :=
  (keyPEM = "" ∧ keySealed = []) ∨
    ∃ priv pem nonce, key = some priv ∧ encodeKey P priv = .ok pem ∧
      P.envSeal nonce pem (adCertKey certID) = .ok keySealed ∧
      keyPEM = if deliverKey then pem else ""

namespace KeyFor

variable {row : IssuedCertificate} {deliverKey : Bool} {key : Option PrivateKey} {keyPEM : String}

theorem sealedBy (h : KeyFor P row.id deliverKey g.key keyPEM row.keySealed) :
    SealedBy P call g row := by
  rcases h with ⟨-, h⟩ | ⟨priv, pem, nonce, hkey, hpem, hseal, -⟩
  · exact .absent h
  · exact .generated priv pem nonce hkey hpem hseal

theorem keyPEM_eq_empty (h : KeyFor P row.id false key keyPEM row.keySealed) : keyPEM = "" := by
  rcases h with ⟨h, -⟩ | ⟨priv, pem, nonce, -, -, -, h⟩
  · exact h
  · exact h

theorem shownBy (h : KeyFor P row.id deliverKey g.key keyPEM row.keySealed)
    (hmint : g.minted = [row]) (hne : keyPEM ≠ "") : ShownBy P call g keyPEM := by
  rcases h with ⟨h, -⟩ | ⟨priv, pem, nonce, hkey, hpem, -, h⟩
  · exact absurd h hne
  cases deliverKey with
  | false => exact absurd h hne
  | true =>
    obtain rfl : keyPEM = pem := h
    exact .issued row priv hmint hkey hpem

end KeyFor

/-- What is known of a new row besides its key. -/
structure FreshRow (tenantID : Id) (requestID : Option Id) (ids : List Id)
    (row : IssuedCertificate) : Prop where
  tenant : row.tenantID = tenantID
  request : row.requestID = requestID
  status : row.status = .active
  supersededBy : row.supersededBy = none
  drawn : row.id ∈ ids

theorem wp_mintKey {Q : Progress → Except Err KeyMaterial → Prop} (hmint : g.minted = [])
    (herr : ∀ k e, Q { g with key := k } (.error e))
    (hok : ∀ k km, KeyFor P certID req.deliverKey k km.keyPEM km.keySealed → Q { g with key := k } (.ok km))
    : (certificateMonitor P call).wp (mintKey P certID req).run Q g := by
  unfold mintKey
  split
  · split
    · exact herr g.key _
    split
    · exact herr g.key _
    · exact hok g.key _ (.inl ⟨rfl, rfl⟩)
  rw [Svc.wp_bind]
  refine wp_generateKey hmint (fun e => herr g.key e) fun priv => ?_
  refine wp_ofExcept_bind (herr _) fun pem hpem => ?_
  refine wp_sealKey_bind (herr _) fun blob n hseal => ?_
  exact hok (some priv) _ (.inr ⟨priv, pem, n, rfl, hpem, hseal, rfl⟩)

theorem wp_mintPrepare {Q : Progress → Except Err Prepared → Prop} (hmint : g.minted = [])
    (herr : ∀ ids k e, Q { g with drawn := ids, key := k } (.error e))
    (hok : ∀ ids k p, FreshRow subj.tenantID none ids p.row → p.row.kind = none → KeyFor P p.row.id req.deliverKey k p.keyPEM p.row.keySealed → (∃ caRow now serial der, p.row = mintRow P subj issuer sid req caRow p.row.id p.row.keySealed now serial der ∧ ∃ nonce uri pub parent key, P.createCertificate nonce (mintLeaf sid req uri pub now serial) parent pub key = .ok der) → Q { g with drawn := ids, key := k } (.ok p)) :
    (certificateMonitor P call).wp (mintPrepare P subj issuer sid req).run Q g := by
  have hq := ignores_quiet P call
  unfold mintPrepare
  split
  · refine wp_only_bind hq (quiet_fetch (Sql.readOnly_getCA _ _)) (herr g.drawn g.key) fun caRow => ?_
    refine wp_only_bind hq (only_ofExcept _) (herr g.drawn g.key) fun ⟨key, caCert⟩ => ?_
    refine wp_newID_bind fun certID => ?_
    rw [Svc.wp_bind]
    refine wp_mintKey hmint (herr _) fun k km hkey => ?_
    refine wp_only_bind hq quiet_now (herr _ k) fun now => ?_
    refine wp_only_bind hq quiet_randomSerial (herr _ k) fun serial => ?_
    split
    · exact herr _ k _
    rename_i uri _
    refine wp_only_bind (ignores_sign P call) (signs_ask _ _ _) (herr _ k) fun nonce => ?_
    refine wp_ofExcept_bind (herr _ k) fun der hder => ?_
    refine wp_only_bind hq (quiet_bundle _ _) (herr _ k) fun b => ?_
    exact hok _ k _ ⟨rfl, rfl, rfl, rfl, mem_append_right _ mem_cons_self⟩ rfl
      hkey ⟨caRow, now, serial, der, rfl, nonce, uri, km.pub, caCert, key, hder⟩
  · exact herr g.drawn g.key _

theorem wp_deliver {keyPEM : String} {retainKey : Bool}
    {Q : Progress → Except Err IssuedCertificate → Prop} (hmint : g.minted = [row])
    (hcall : keyPEM ≠ "" → ∃ subj input, call = .issue subj input)
    (herr : ∀ e, Q { g with lost := true } (.error e))
    (hok : ∀ d row', row'.id = row.id → (keyPEM ≠ "" → retainKey = false → d = true) → Q { g with delivered := d } (.ok row'))
    : (certificateMonitor P call).wp (deliver keyPEM retainKey row).run Q g := by
  unfold deliver
  split
  · next h =>
    obtain ⟨subj, input, hcall⟩ := hcall h.1
    rw [Svc.wp_bind]
    exact wp_recordDelivery (.inr ⟨subj, input, row, hcall, hmint, rfl, rfl⟩) herr
      (hok true _ rfl fun _ _ => rfl)
  rename_i h
  refine hok g.delivered row rfl ?_
  intro hk hr
  exact absurd ⟨hk, by simp [hr]⟩ h

theorem wp_mint (hmint : g.minted = []) (ht : call.tenant? = some subj.tenantID)
    (hr : call.request? = none) (hactor : call.actor? = some subj)
    (hasked : AskedFor P call g issuer.id sid req) (hloaded : call.renews?.isSome → g.copy.isSome)
    (hdeliver : req.deliverKey = true → ∃ subj input, call = .issue subj input)
    (herr : ∀ ids k e, Q { g with drawn := ids, key := k } (.error e))
    (hlost : ∀ ids k row e, Q { g with drawn := ids, key := k, minted := [row], lost := true } (.error e))
    (hok : ∀ ids k row d b, b.certificate.id = row.id → KeyFor P row.id req.deliverKey k b.keyPEM row.keySealed → (b.keyPEM ≠ "" → req.retainKey = false → d = true) → Q { g with drawn := ids, key := k, minted := [row], delivered := d } (.ok b)) :
    (certificateMonitor P call).wp (mint P subj issuer sid req).run Q g := by
  have hq := ignores_quiet P call
  unfold mint
  rw [Svc.wp_bind]
  refine wp_mintPrepare hmint herr fun ids k p hp hkind hkey hmade => ?_
  obtain ⟨caRow, now, serial, der, hprow, hsigned⟩ := hmade
  have hasked' : AskedFor P call { g with drawn := ids, key := k } issuer.id sid req := by
    rcases hasked with ⟨subj, input, hcall, hreq⟩ | ⟨old, hold, hkind, hsid, hissuer, hreq⟩
    · exact .issued subj input hcall hreq
    · exact .renewed old hold hkind hsid hissuer hreq
  have hrow : NewRow P call { g with drawn := ids, key := k } p.row :=
    ⟨ht.trans (by rw [hp.tenant]), hp.request.trans hr.symm, hp.status, hp.supersededBy,
      hp.drawn, fun _ _ _ => hkind, hkey.sealedBy, hloaded,
      .minted subj issuer sid req caRow now serial der hactor hasked' hprow hsigned⟩
  rw [after_ok, Svc.wp_bind]
  refine wp_storeCertificate hmint hrow (herr ids k) ?_
  refine wp_emit_bind hq ?_
  rw [Svc.wp_bind]
  have hshown : p.keyPEM ≠ "" → ∃ subj input, call = .issue subj input := by
    intro hne
    refine hdeliver ?_
    cases hreq : req.deliverKey with
    | true => rfl
    | false =>
      rw [hreq] at hkey
      exact absurd hkey.keyPEM_eq_empty hne
  refine wp_deliver rfl hshown (hlost ids k p.row) fun d row' hid hd => ?_
  refine wp_returns_bind hq (quiet_permissionsOn _ _) (returns_permissionsOn _ _) fun perms _ => ?_
  refine wp_returns_bind hq (quiet_certView _ _) (returns_certView _ _) fun v hv => ?_
  exact hok ids k p.row d _ (hv.trans hid) hkey hd

/-! ## Orders -/

theorem wp_orderKey {Q : Progress → Except Err (Blob × String × Blob) → Prop}
    (hmint : g.minted = []) (herr : ∀ k e, Q { g with key := k } (.error e))
    (hok : ∀ k km, KeyFor P certID deliverKey k km.2.1 km.2.2 → (km.2.2 ≠ [] → ∃ key nonce, k = some key ∧ P.createCertificateRequest nonce (domains.headD "") domains key = .ok km.1) → Q { g with key := k } (.ok km))
    : (certificateMonitor P call).wp (orderKey P certID domains csrPEM deliverKey).run Q g := by
  have hq := ignores_quiet P call
  unfold orderKey
  split
  · split
    · exact herr g.key _
    · exact hok g.key _ (.inl ⟨rfl, rfl⟩) fun h => absurd rfl h
  rw [Svc.wp_bind]
  refine wp_generateKey hmint (fun e => herr g.key e) fun priv => ?_
  refine wp_only_bind hq (quiet_look _) (herr _) fun nonce => ?_
  refine wp_ofExcept_bind (herr _) fun csrDER hcsr => ?_
  refine wp_ofExcept_bind (herr _) fun pem hpem => ?_
  refine wp_sealKey_bind (herr _) fun blob n hseal => ?_
  exact hok (some priv) _ (.inr ⟨priv, pem, n, rfl, hpem, hseal, rfl⟩)
    fun _ => ⟨priv, nonce, rfl, hcsr⟩

section Orders

variable {requestID : Option Id} {issuerID : Id} {autoRenew : Bool} (hmint : g.minted = [])
  (hcall : call = .obtainACMEFor subj requestID issuerID domains csrPEM deliverKey autoRenew)

include hmint hcall

theorem wp_orderPrepare {Q : Progress → Except Err Order → Prop}
    (herr : ∀ ids k os e, Q { g with drawn := ids, key := k, orders := os } (.error e))
    (hok : ∀ ids k os o, FreshRow subj.tenantID requestID ids o.row → KeyFor P o.row.id deliverKey k o.keyPEM o.row.keySealed → Made P call { g with drawn := ids, key := k, orders := os } o.row → Q { g with drawn := ids, key := k, orders := os } (.ok o))
    : (certificateMonitor P call).wp
      (orderPrepare P subj requestID issuerID domains csrPEM deliverKey autoRenew).run Q g := by
  have hq := ignores_quiet P call
  have herr0 := herr g.drawn g.key g.orders
  refine wp_only_bind hq (only_ofExcept _) herr0 fun ds => ?_
  refine wp_only_bind hq (quiet_precheckACME _ _) herr0 fun issuer => ?_
  refine wp_only_bind hq (only_ofExcept _) herr0 fun _ => ?_
  refine wp_only_bind hq (quiet_askExcept _) herr0 fun _ => ?_
  refine wp_newID_bind fun certID => ?_
  rw [Svc.wp_bind]
  refine wp_orderKey hmint (fun k e => herr _ k g.orders e) fun k km hkey hcsr => ?_
  refine wp_obtain_bind (herr _ k _) fun chain => ?_
  refine wp_ofExcept_bind (herr _ k _) fun ⟨leafPEM, restPEM, leaf, der⟩ hsplit => ?_
  refine wp_only_bind hq quiet_now (herr _ k _) fun now => ?_
  refine hok _ k _ _ ⟨rfl, rfl, rfl, rfl, mem_append_right _ mem_cons_self⟩ hkey ?_
  refine .ordered subj requestID issuerID domains csrPEM deliverKey autoRenew ds chain leafPEM
    restPEM leaf der hcall hsplit rfl fun hne => ?_
  obtain ⟨key, nonce, hk, hcreate⟩ := hcsr hne
  exact ⟨key, hk, nonce, km.1, hcreate, mem_append_right _ mem_cons_self⟩

theorem wp_obtainACME
    (herr : ∀ ids k os e, Q { g with drawn := ids, key := k, orders := os } (.error e))
    (hlost : ∀ ids k os row e, Q { g with drawn := ids, key := k, orders := os, minted := [row], lost := true } (.error e))
    (hok : ∀ ids k os row b, KeyFor P row.id deliverKey k b.keyPEM row.keySealed → Q { g with drawn := ids, key := k, orders := os, minted := [row] } (.ok b))
    : (certificateMonitor P call).wp
      (obtainACME P subj requestID issuerID domains csrPEM deliverKey autoRenew).run Q g := by
  have hq := ignores_quiet P call
  unfold obtainACME
  rw [Svc.wp_bind]
  refine wp_orderPrepare hmint hcall herr fun ids k os o ho hkey hmade => ?_
  have hrow : NewRow P call { g with drawn := ids, key := k, orders := os } o.row := by
    subst hcall
    exact ⟨congrArg some ho.tenant.symm, ho.request, ho.status, ho.supersededBy, ho.drawn,
      fun _ _ h => (by cases h), hkey.sealedBy,
      fun h => (by cases h), hmade⟩
  rw [after_ok, Svc.wp_bind]
  refine wp_storeCertificate hmint hrow (herr _ k os) ?_
  refine wp_emit_bind hq ?_
  rw [Svc.wp_bind]
  refine wp_viewStored rfl ho.tenant.symm ?_ (hlost ids k os o.row)
    fun v => hok ids k os o.row _ hkey
  subst hcall
  exact fun h => by cases h

end Orders

theorem wp_renewKey {Q : Progress → Except Err PrivateKey → Prop} (hmint : g.minted = [])
    (herr : ∀ k e, Q { g with key := k } (.error e))
    (hok : ∀ k key, storedKey P old = some key ∨ storedKey P old = none ∧ k = some key → Q { g with key := k } (.ok key))
    : (certificateMonitor P call).wp (renewKey P old).run Q g := by
  unfold renewKey
  split
  · next key hkey => exact hok g.key key (.inl hkey)
  · next hkey =>
    exact wp_generateKey hmint (fun e => herr g.key e) fun key => hok _ key (.inr ⟨hkey, rfl⟩)

theorem wp_renewPrepare {Q : Progress → Except Err Order → Prop} (hmint : g.minted = [])
    (hcopy : g.copy = some old) (hkind : old.kind = some .generic)
    (hactor : call.actor? = some subj)
    (herr : ∀ ids k os e, Q { g with drawn := ids, key := k, orders := os } (.error e))
    (hok : ∀ ids k os o, FreshRow subj.tenantID none ids o.row → SealedBy P call { g with drawn := ids, key := k, orders := os } o.row → Made P call { g with drawn := ids, key := k, orders := os } o.row → Q { g with drawn := ids, key := k, orders := os } (.ok o))
    : (certificateMonitor P call).wp (renewPrepare P subj old).run Q g := by
  have hq := ignores_quiet P call
  have herr0 := herr g.drawn g.key g.orders
  refine wp_ofExcept_bind herr0 fun domains hdomains => ?_
  refine wp_only_bind_yields hq (quiet_readIssuer (Sql.readOnly_getIssuer _ _))
    (yields_readIssuer_id subj.tenantID old.issuerID) herr0 fun issuer hissuer => ?_
  refine wp_only_bind hq (only_ofExcept _) herr0 fun _ => ?_
  refine wp_only_bind hq (quiet_askExcept _) herr0 fun _ => ?_
  refine wp_newID_bind fun certID => ?_
  rw [Svc.wp_bind]
  refine wp_renewKey hmint (fun k e => herr _ k g.orders e) fun k key hkey => ?_
  refine wp_only_bind hq (quiet_look _) (herr _ k _) fun nonce => ?_
  refine wp_ofExcept_bind (herr _ k _) fun csrDER hcsr => ?_
  refine wp_ofExcept_bind (herr _ k _) fun pem hpem => ?_
  refine wp_sealKey_bind (herr _ k _) fun blob n hseal => ?_
  refine wp_obtain_bind (herr _ k _) fun chain => ?_
  refine wp_ofExcept_bind (herr _ k _) fun ⟨leafPEM, restPEM, leaf, der⟩ hsplit => ?_
  refine wp_only_bind hq quiet_now (herr _ k _) fun now => ?_
  refine hok _ k _ _ ⟨rfl, rfl, rfl, rfl, mem_append_right _ mem_cons_self⟩ ?_ ?_
  · rcases hkey with hkey | ⟨-, rfl⟩
    · exact .reused old key pem n hcopy hkind hkey hpem hseal
    · exact .generated key pem n rfl hpem hseal
  exact .reordered subj old domains chain leafPEM restPEM leaf der key pem n hactor hcopy
    hkind hdomains hsplit (by rw [hissuer]; rfl) hkey hpem hseal
    ⟨nonce, csrDER, hcsr, mem_append_right _ mem_cons_self⟩

/-! ## Renewal -/

/-- The certificate has been stored and a call after that has failed. -/
def Progress.Broken (g : Progress) : Prop := g.minted ≠ [] ∧ g.lost = true

/-- The certificate has been stored and the old one linked to it, and nothing failed. -/
def Progress.Renewed (g : Progress) : Prop := g.minted ≠ [] ∧ g.linked = true ∧ g.lost = false

section Renewals

variable (hmint : g.minted = []) (hlost : g.lost = false) (hcopy : g.copy = some old)
  (hcall : call.renews? = some (subj.tenantID, old.id)) (ht : call.tenant? = some subj.tenantID)
  (hr : call.request? = none) (hactor : call.actor? = some subj)
  (herr : ∀ ids k os e, Q { g with drawn := ids, key := k, orders := os } (.error e))
  (hbroken : ∀ g' e, g'.Broken → Q g' (.error e))
  (hok : ∀ g' b, g'.Renewed → b.keyPEM = "" → Q g' (.ok b))

include hmint hlost hcopy hcall ht hr hactor herr hbroken hok

theorem wp_renewACME (hkind : old.kind = some .generic) :
    (certificateMonitor P call).wp (renewACME P subj old).run Q g := by
  have hq := ignores_quiet P call
  unfold renewACME
  rw [Svc.wp_bind]
  refine wp_renewPrepare hmint hcopy hkind hactor herr fun ids k os o ho hseal hmade => ?_
  have hissue : ∀ subj' input, call = .issue subj' input → o.row.kind = none := by
    rintro subj' input rfl
    cases hcall
  have hrow : NewRow P call { g with drawn := ids, key := k, orders := os } o.row :=
    ⟨ht.trans (by rw [ho.tenant]), ho.request.trans hr.symm, ho.status, ho.supersededBy,
      ho.drawn, hissue, hseal, fun _ => (by simp [hcopy]), hmade⟩
  rw [after_ok, Svc.wp_bind]
  refine wp_storeCertificate hmint hrow (herr _ k os) ?_
  rw [after_ok, Svc.wp_bind]
  refine wp_supersede hcopy rfl hcall ?_ ?_
  · exact fun e => hbroken _ e ⟨by simp, rfl⟩
  refine wp_emit_bind hq ?_
  rw [Svc.wp_bind]
  refine wp_viewStored rfl ho.tenant.symm (fun _ => rfl) ?_ ?_
  · exact fun e => hbroken _ e ⟨by simp, rfl⟩
  · exact fun v => hok _ _ ⟨by simp, rfl, hlost⟩ rfl

theorem wp_renewCert : (certificateMonitor P call).wp (renewCert P subj old).run Q g := by
  have hq := ignores_quiet P call
  unfold renewCert
  split
  · next hkind => exact wp_renewACME hmint hlost hcopy hcall ht hr hactor herr hbroken hok hkind
  rename_i hkind
  split
  · exact herr g.drawn g.key g.orders _
  rename_i sid hsid
  refine wp_only_bind_yields hq (quiet_readIssuer (Sql.readOnly_getIssuer _ _))
    (yields_readIssuer_id subj.tenantID old.issuerID) (herr g.drawn g.key g.orders)
    fun issuer hissuer => ?_
  rw [Svc.wp_bind]
  refine wp_mint hmint ht hr hactor (.renewed old hcopy hkind hsid hissuer rfl)
    (fun _ => by simp [hcopy]) (fun h => by cases h) (fun ids k e => herr ids k g.orders e)
    ?_ ?_
  · exact fun ids k row e => hbroken _ e ⟨by simp, rfl⟩
  intro ids k row d b hb hkey _
  rw [after_ok, hb, Svc.wp_bind]
  refine wp_supersede hcopy rfl hcall ?_ ?_
  · exact fun e => hbroken _ e ⟨by simp, rfl⟩
  · exact hok _ b ⟨by simp, rfl, hlost⟩ hkey.keyPEM_eq_empty

end Renewals

/-! ## How the calls end -/

theorem finish_error {e : Err} (h : g.minted = [] ∨ g.Broken) : Finish P call g (.error e) where
  linked _ hm := .inr ((h.resolve_left hm).2)
  lost _ _ hm := (h.resolve_left hm).2
  kept v hv := by cases hv
  revoked _ _ _ _ _ hv := by cases hv
  bundle _ _ _ _ hv := by cases hv
  delivered _ _ _ _ hv := by cases hv
  key _ _ hv := by cases hv

theorem finish_start (e : Err) : Finish P call .start (.error e) := finish_error (.inl rfl)

/-- The calls other than `Issue` and `Revoke`. -/
def Call.Plain : Call → Prop
  | issue _ _ | revoke _ _ _ => False
  | _ => True

theorem finish_ok {v : Value} (hlink : call.renews?.isSome → g.minted ≠ [] → g.linked = true)
    (hlost : g.lost = false) (hcall : call.Plain)
    (hkey : ∀ pem, v.key? = some pem → ShownBy P call g pem) : Finish P call g (.ok v) where
  linked hr hm := .inl (hlink hr hm)
  lost _ h := by cases h
  kept _ _ _ := hlost
  revoked _ _ _ _ h := (h ▸ hcall).elim
  bundle _ _ _ h := (h ▸ hcall).elim
  delivered _ _ _ h := (h ▸ hcall).elim
  key w pem hw hpem := by
    cases hw
    exact hkey pem hpem

theorem finish_issue {input : IssueInput} {b : Bundle} (hmint : g.minted = [row])
    (hlost : g.lost = false) (hid : b.certificate.id = row.id)
    (hkey : KeyFor P row.id input.deliverKey g.key b.keyPEM row.keySealed)
    (hd : b.keyPEM ≠ "" → input.retainKey = false → g.delivered = true) :
    Finish P (.issue subj input) g (.ok (.bundle b)) where
  linked h := by cases h
  lost _ h := by cases h
  kept _ _ _ := hlost
  revoked _ _ _ _ h := by cases h
  bundle _ _ _ _ h := by
    cases h
    exact ⟨row, hmint, hid⟩
  delivered _ _ _ h h' hne hr := by
    cases h
    cases h'
    exact hd hne hr
  key v pem hv hpem := by
    cases hv
    simp only [Value.key?, Option.ite_none_left_eq_some, Option.some.injEq] at hpem
    obtain ⟨hne, rfl⟩ := hpem
    exact hkey.shownBy hmint hne

theorem finish_revoke {reason : String} {v : Value} (hrev : g.revoked = true)
    (hlost : g.lost = false) (hkey : v.key? = none) :
    Finish P (.revoke subj id reason) g (.ok v) where
  linked h := by cases h
  lost _ h := by cases h
  kept _ _ _ := hlost
  revoked _ _ _ _ _ _ := hrev
  bundle _ _ _ h := by cases h
  delivered _ _ _ h := by cases h
  key w pem hw hpem := by
    cases hw
    rw [hkey] at hpem
    cases hpem

end Steps

/-! ## The calls -/

section Bodies

variable (subj : Subjects)

/-- The call keeps to the protocol from its start to its end. -/
def Conforms (call : Call) : Prop :=
  (certificateMonitor P call).wp (body P call).run (Finish P call) .start

theorem wp_issue (input : IssueInput) : Conforms P (.issue subj input) := by
  have hq := ignores_quiet P (.issue subj input)
  unfold Conforms body issue
  rw [Svc.wp_bind]
  refine wp_only_bind hq (quiet_resolveIssuer P _ _) finish_start fun ⟨issuer, sid⟩ => ?_
  refine wp_only_bind hq (quiet_entitled P _ _ _) finish_start fun _ => ?_
  refine wp_mint rfl rfl rfl rfl (.issued subj input rfl rfl) (fun h => by cases h)
    (fun _ => ⟨subj, input, rfl⟩) ?_ ?_ ?_
  · exact fun ids k e => finish_error (.inl rfl)
  · exact fun ids k row e => finish_error (.inr ⟨by simp, rfl⟩)
  · exact fun ids k row d b hid hkey hd => finish_issue rfl rfl hid hkey hd

theorem wp_obtainACMEFor (requestID : Option Id) (issuerID : Id)
    (domains : List String) (csrPEM : String) (deliverKey autoRenew : Bool) :
    Conforms P (.obtainACMEFor subj requestID issuerID domains csrPEM deliverKey autoRenew) := by
  let call := Call.obtainACMEFor subj requestID issuerID domains csrPEM deliverKey autoRenew
  have hq := ignores_quiet P call
  unfold Conforms body obtainACMEFor
  rw [Svc.wp_bind]
  -- the order's error is looked at, audited and returned
  have hfail : ∀ (g : Progress) (e : Err), g.minted = [] ∨ g.Broken →
      (certificateMonitor P call).wp
        (if e ≠ .forbidden then do
            emit ⟨subj.tenantID, .certificateIssued, subj.actorKind, subj.actorID, none, .failed,
              failReason e⟩
            fail e
          else fail e : Svc Bundle).run
        (After (certificateMonitor P call) (fun b => pure (Value.bundle b)) (Finish P call)) g := by
    intro g e hg
    split
    · refine wp_only_bind hq (quiet_emit _) ?_ fun _ => ?_
      · exact fun e => finish_error hg
      · exact finish_error hg
    · exact finish_error hg
  rw [Svc.wp_bind, wp_attempt]
  refine wp_obtainACME rfl rfl ?_ ?_ ?_
  · exact fun ids k os e => hfail _ e (.inl rfl)
  · exact fun ids k os row e => hfail _ e (.inr ⟨by simp, rfl⟩)
  intro ids k os row b hkey
  refine finish_ok (fun h => by cases h) rfl trivial ?_
  intro pem hpem
  simp only [Value.key?, Option.ite_none_left_eq_some, Option.some.injEq] at hpem
  obtain ⟨hne, rfl⟩ := hpem
  exact hkey.shownBy rfl hne

theorem wp_importPrepare {input : ImportInput} {Q : Progress → Except Err Order → Prop}
    (herr : ∀ ids e, Q { g with drawn := ids } (.error e)) (hcall : call = .importACME subj input)
    (hok : ∀ ids o, FreshRow subj.tenantID none ids o.row → Made P call { g with drawn := ids } o.row → Q { g with drawn := ids } (.ok o))
    : (certificateMonitor P call).wp (importPrepare P subj input).run Q g := by
  have hq := ignores_quiet P call
  refine wp_only_bind hq (quiet_precheckACME _ _) (herr g.drawn) fun _ => ?_
  refine wp_ofExcept_bind (herr g.drawn) fun ⟨leaf, der, chain⟩ hcerts => ?_
  refine wp_only_bind hq (only_ofExcept _) (herr g.drawn) fun domains => ?_
  refine wp_ofExcept_bind (herr g.drawn) fun pem hpem => ?_
  refine wp_newID_bind fun certID => ?_
  refine wp_sealKey_bind (herr _) fun blob n hseal => ?_
  refine wp_only_bind hq quiet_now (herr _) fun now => ?_
  exact hok _ _ ⟨rfl, rfl, rfl, rfl, mem_append_right _ mem_cons_self⟩
    (.imported subj input leaf der chain pem domains n hcall hcerts hpem hseal rfl)

theorem wp_importACME (input : ImportInput) : Conforms P (.importACME subj input) := by
  have hq := ignores_quiet P (.importACME subj input)
  unfold Conforms body importACME
  rw [Svc.wp_bind, Svc.wp_bind]
  refine wp_importPrepare P subj (fun ids e => finish_error (.inl rfl)) rfl fun ids o ho hmade => ?_
  have hrow : NewRow P (.importACME subj input) { Progress.start with drawn := ids } o.row :=
    ⟨congrArg some ho.tenant.symm, ho.request, ho.status, ho.supersededBy, ho.drawn,
      fun _ _ h => (by cases h), .imported subj input rfl, fun h => (by cases h), hmade⟩
  rw [after_ok, Svc.wp_bind, wp_attempt]
  refine wp_storeCertificate rfl hrow ?_ ?_
  · intro e
    rw [after_ok]
    split
    · exact finish_error (.inl rfl)
    · exact finish_error (.inl rfl)
    · next h => cases h
  refine wp_emit_bind hq ?_
  refine wp_viewStored rfl ho.tenant.symm (fun h => by cases h) ?_ ?_
  · exact fun e => finish_error (.inr ⟨by simp, rfl⟩)
  · exact fun v => finish_ok (fun h => by cases h) rfl trivial (by simp [Value.key?])

theorem wp_renewLoaded (hcall : call.renews? = some (subj.tenantID, certID))
    (htarget : call.target? = call.renews?) (ht : call.tenant? = some subj.tenantID)
    (hr : call.request? = none) (hactor : call.actor? = some subj)
    (herr : ∀ g e, g.minted = [] ∨ g.Broken → Q g (.error e))
    (hok : ∀ g b, g.Renewed → b.keyPEM = "" → Q g (.ok b)) :
    (certificateMonitor P call).wp
      (do renewCert P subj (← loadCertificate subj.tenantID certID)).run Q .start := by
  rw [Svc.wp_bind]
  refine wp_loadCertificate rfl rfl (htarget.trans hcall) (fun e => herr _ e (.inl rfl)) ?_
  rintro old rfl -
  refine wp_renewCert rfl rfl rfl hcall ht hr hactor ?_ ?_ hok
  · exact fun ids k os e => herr _ e (.inl rfl)
  · exact fun g e hg => herr g e (.inr hg)

theorem finish_renewed {b : Bundle} (hg : g.Renewed) (hb : b.keyPEM = "") (hcall : call.Plain) :
    Finish P call g (.ok (.bundle b)) :=
  finish_ok (fun _ _ => hg.2.1) hg.2.2 hcall (by simp [Value.key?, hb])

theorem wp_renew (certID : Id) : Conforms P (.renew subj certID) := by
  unfold Conforms body renew
  rw [Svc.wp_bind]
  refine wp_only_bind (ignores_quiet P _) (Authz.quiet_check _ _ _ _) finish_start fun _ => ?_
  refine wp_renewLoaded P subj rfl rfl rfl rfl rfl ?_ ?_
  · exact fun g e hg => finish_error hg
  · exact fun g b hg hb => finish_renewed P hg hb trivial

theorem wp_renewSystem (tenantID certID : Id) : Conforms P (.renewSystem tenantID certID) := by
  unfold Conforms body renewSystem
  rw [Svc.wp_bind]
  refine wp_renewLoaded P ⟨tenantID, "", ["admin"], renewSystemID⟩ rfl rfl rfl rfl rfl ?_ ?_
  · exact fun g e hg => finish_error hg
  · exact fun g b hg hb => finish_renewed P hg hb trivial

theorem wp_renewOne (cert : IssuedCertificate) : Conforms P (.renewOne cert) := by
  unfold Conforms body Renew.renewOne renewSystem
  rw [Svc.wp_bind, Svc.wp_bind, wp_attempt]
  refine wp_renewLoaded P ⟨cert.tenantID, "", ["admin"], renewSystemID⟩ rfl rfl rfl rfl rfl ?_ ?_
  · -- the error is swallowed
    intro g e hg
    refine ⟨?_, by simp, ?_, by simp, by simp, by simp, ?_⟩
    · exact fun _ hm => .inr (hg.resolve_left hm).2
    · exact fun v _ hcall => absurd rfl (hcall cert)
    · rintro v pem ⟨⟩ ⟨⟩
  · intro g b hg _
    exact finish_ok (fun _ _ => hg.2.1) hg.2.2 trivial (by simp [Value.key?])

theorem wp_revoke (certID : Id) (reason : String) : Conforms P (.revoke subj certID reason) := by
  have hq := ignores_quiet P (.revoke subj certID reason)
  unfold Conforms body revoke
  rw [Svc.wp_bind]
  refine wp_only_bind hq (Authz.quiet_check _ _ _ _) finish_start fun _ => ?_
  refine wp_only_bind hq (quiet_fetch (Sql.readOnly_getCertificate _ _)) finish_start fun row => ?_
  refine wp_only_bind hq quiet_now finish_start fun now => ?_
  rw [Svc.wp_bind]
  refine wp_repo_cases ?_ finish_start ?_
  · exact fun e s => ⟨⟨effect_revoke _ _ _ _ _ _ _ e s, trivial⟩, subj, reason, rfl, rfl⟩
  rintro ⟨⟩
  refine wp_returns hq (quiet_emit _) (returns_ask (R := fun _ => True) fun _ => trivial) ?_
  exact fun _ _ => finish_revoke rfl rfl rfl

theorem wp_updateCertificate (id : Id) (input : CertificateUpdate) : Conforms P (.updateCertificate subj id input) := by
  have hq := ignores_quiet P (.updateCertificate subj id input)
  unfold Conforms body updateCertificate
  rw [Svc.wp_bind]
  refine wp_only_bind hq (Authz.quiet_check _ _ _ _) finish_start fun _ => ?_
  rw [Svc.wp_bind]
  refine wp_loadCertificate rfl rfl rfl finish_start ?_
  intro old hid ht
  rw [after_ok, Svc.wp_bind]
  refine wp_repo_cases ?_ ?_ ?_
  · exact fun e s =>
      ⟨⟨effect_updateCertificate _ e s, trivial⟩, subj, id, input, old, rfl, rfl, hid, ht, rfl⟩
  · exact fun e => finish_error (.inl rfl)
  rintro ⟨⟩
  refine wp_only_yields hq (quiet_getCertificate _ _) (yields_any _) ?_ fun v _ => ?_
  · exact fun e => finish_error (.inl rfl)
  · exact finish_ok (fun _ h => absurd rfl h) rfl trivial (by simp [Value.key?])

theorem wp_deleteCertificate (id : Id) : Conforms P (.deleteCertificate subj id) := by
  have hq := ignores_quiet P (.deleteCertificate subj id)
  unfold Conforms body deleteCertificate
  rw [Svc.wp_bind]
  refine wp_only_bind hq (Authz.quiet_check _ _ _ _) finish_start fun _ => ?_
  refine wp_only_bind hq (quiet_fetch (Sql.readOnly_getCertificate _ _)) finish_start fun row => ?_
  rw [Svc.wp_bind]
  refine wp_repo_cases ?_ finish_start ?_
  · exact fun e s => ⟨⟨effect_deleteCertificate _ _ e s, trivial⟩, subj, rfl, rfl⟩
  rintro ⟨⟩
  refine wp_returns hq (quiet_emit _) (returns_ask (R := fun _ => True) fun _ => trivial) ?_
  exact fun _ _ =>
    finish_ok (fun _ h => absurd rfl h) rfl trivial (by simp [Value.key?])

theorem wp_markKeyDelivered (certID : Id) : Conforms P (.markKeyDelivered subj certID) := by
  unfold Conforms body markKeyDelivered
  rw [Svc.wp_bind]
  refine wp_only_bind (ignores_quiet P _) (Authz.quiet_check _ _ _ _) finish_start fun _ => ?_
  refine wp_recordDelivery (.inl ⟨subj, rfl, rfl⟩) (fun e => finish_error (.inl rfl)) ?_
  exact finish_ok (fun _ h => absurd rfl h) rfl trivial (by simp [Value.key?])

theorem wp_readKey (hcopy : g.copy = none) (hmint : g.minted = [])
    (hcall : call.target? = some (subj.tenantID, certID)) {Q : Progress → Except Err String → Prop}
    (herr : ∀ c e, Q { g with copy := c } (.error e))
    (hok : ∀ c pem, c.keySealed ≠ [] → P.envOpen c.keySealed (adCertKey c.id) = some pem → Q { g with copy := some c } (.ok pem))
    : (certificateMonitor P call).wp (downloadKey P subj certID).run Q g := by
  refine wp_only_bind (ignores_quiet P call) (Authz.quiet_check _ _ _ _) (herr g.copy) fun _ => ?_
  rw [Svc.wp_bind]
  refine wp_loadCertificate hcopy hmint hcall (herr g.copy) fun c _ _ => ?_
  rw [after_ok]
  split
  · exact herr _ _
  rename_i hlen
  split
  · exact herr _ _
  · next pem hpem => exact hok c pem (fun h => hlen (by rw [h]; rfl)) hpem

theorem wp_downloadKey (certID : Id) : Conforms P (.downloadKey subj certID) := by
  unfold Conforms body
  rw [Svc.wp_bind]
  refine wp_readKey P subj rfl rfl rfl (fun c e => finish_error (.inl rfl)) ?_
  intro c pem hne hpem
  refine finish_ok (fun _ h => absurd rfl h) rfl trivial ?_
  rintro _ ⟨⟩
  exact .opened c rfl rfl hne hpem

theorem yields_download (certID : Id) :
    Yields (fun b => b.keyPEM = "") (download P subj certID) := by
  refine yields_bind_any fun _ => yields_bind_any fun row => yields_bind_any fun perms => ?_
  exact yields_bind_any fun b => yields_bind_any fun v => yields_pure rfl

theorem wp_downloadForService (tenantID : Id) (caller : String) (certID : Id) (includeKey : Bool) : Conforms P (.downloadForService tenantID caller certID includeKey) := by
  unfold Conforms body downloadForService
  rw [Svc.wp_bind]
  refine wp_only_bind_yields (ignores_quiet P _) (quiet_download P _ _) (yields_download P _ _) finish_start ?_
  intro b hb
  split
  · rw [Svc.wp_bind]
    refine wp_readKey P _ rfl rfl rfl (fun c e => finish_error (.inl rfl)) ?_
    intro c pem hne hpem
    refine finish_ok (fun _ h => absurd rfl h) rfl trivial ?_
    intro pem' hpem'
    simp only [Value.key?, Option.ite_none_left_eq_some, Option.some.injEq] at hpem'
    obtain ⟨-, rfl⟩ := hpem'
    exact .opened c rfl rfl hne hpem
  · exact finish_ok (fun _ h => absurd rfl h) rfl trivial (by simp [Value.key?, hb])

theorem wp_finishACME (requestID certificateID : Id) (orderErr : Option Err) :
    Conforms P (.finishACME subj requestID certificateID orderErr) := by
  let call := Call.finishACME subj requestID certificateID orderErr
  have hok : Finish P call .start (.ok .unit) :=
    finish_ok (fun h => by cases h) rfl trivial (by simp [Value.key?])
  unfold Conforms body finishACME
  rw [Svc.wp_bind]
  split
  all_goals
    refine wp_repo_cases ?_ finish_start fun _ => hok
    exact fun e s => ⟨⟨effect_completeRequest _ _ _ _ _ e s, trivial⟩, subj, _, _, rfl, rfl⟩

theorem wp_handOut {Q : Progress → Except Err Unit → Prop} (hok : Q g (.ok ()))
    (certs : List IssuedCertificate) (hcerts : ∀ c ∈ certs, c ∈ g.scanned) :
    (certificateMonitor P .runOnce).wp (Renew.handOut certs).run Q g := by
  induction certs with
  | nil => exact hok
  | cons c cs ih =>
    refine wp_returns_bind (ignores_quiet P _) (quiet_look _)
      (returns_ask (R := fun _ => True) fun _ => trivial) fun stop _ => ?_
    split
    · exact hok
    · refine ⟨⟨rfl, c, hcerts c mem_cons_self, rfl⟩, ?_⟩
      exact ih fun d hd => hcerts d (mem_cons_of_mem c hd)

theorem wp_runOnce : Conforms P .runOnce := by
  unfold Conforms body Renew.runOnce
  rw [Svc.wp_bind]
  refine wp_only_bind (ignores_quiet P _) quiet_now finish_start fun now => ?_
  rw [Svc.wp_bind]
  refine wp_repo_cases ?_ finish_start fun rows => ?_
  · exact fun e s => ⟨⟨effect_dueForRenewal _ _ _ e s, trivial⟩, rfl⟩
  · refine wp_handOut P ?_ _ fun c hc => (mem_filter.1 hc).1
    exact finish_ok (fun h => by cases h) rfl trivial (by simp [Value.key?])

theorem wp_importBackup (doc : Transfer.Document) (mode : String) : Conforms P (.importBackup subj doc mode) := by
  have hq := ignores_quiet P (.importBackup subj doc mode)
  unfold Conforms body Transfer.importBackup
  rw [Svc.wp_bind]
  split
  · exact finish_start _
  split
  · exact finish_start _
  rw [Svc.wp_bind]
  refine wp_repo_cases ?_ finish_start fun rep => ?_
  · exact fun e s => ⟨happens_importBackup P subj doc mode e s, subj, rfl, rfl⟩
  · refine wp_emit_bind hq ?_
    exact finish_ok (fun h => by cases h) rfl trivial (by simp [Value.key?])

theorem wp_quietCall {α : Type} {m : Svc α} {f : α → Value} {R : α → Prop} (hm : Quiet m)
    (hR : Yields R m) (hcall : call.renews? = none) (hplain : call.Plain)
    (hkey : ∀ a, R a → (f a).key? = none) :
    (certificateMonitor P call).wp (m >>= fun a => pure (f a)).run (Finish P call) .start := by
  refine wp_only_bind_yields (ignores_quiet P call) hm hR finish_start ?_
  intro a ha
  refine finish_ok (fun h => ?_) rfl hplain ?_
  · simp [hcall] at h
  intro pem hpem
  rw [hkey a ha] at hpem
  cases hpem

end Bodies

theorem sound_certificates {ops : Call → Prop} (hops : ∀ c, ops c → c.OnCertificates)
    (hrun : ops .runOnce → ∀ cert, ops (.renewOne cert)) :
    (certificates P ops).Sound fun c => (body P c).run where
  wp_body c hc := by
    have hon := hops c hc
    cases c with
    | issue subj input => exact wp_issue P subj input
    | obtainACMEFor subj r i d c k a => exact wp_obtainACMEFor P subj r i d c k a
    | finishACME subj r c e => exact wp_finishACME P subj r c e
    | importACME subj input => exact wp_importACME P subj input
    | renew subj id => exact wp_renew P subj id
    | renewSystem t id => exact wp_renewSystem P t id
    | revoke subj id reason => exact wp_revoke P subj id reason
    | updateCertificate subj id input => exact wp_updateCertificate P subj id input
    | deleteCertificate subj id => exact wp_deleteCertificate P subj id
    | markKeyDelivered subj id => exact wp_markKeyDelivered P subj id
    | getCertificate subj id =>
      exact wp_quietCall P (quiet_getCertificate subj id) (yields_any _) rfl trivial
        fun v _ => rfl
    | download subj id =>
      exact wp_quietCall P (quiet_download P subj id) (yields_download P subj id) rfl trivial
        fun b hb => by simp [Value.key?, hb]
    | downloadKey subj id => exact wp_downloadKey P subj id
    | downloadForService t caller id k => exact wp_downloadForService P t caller id k
    | runOnce => exact wp_runOnce P
    | renewOne cert => exact wp_renewOne P cert
    | exportBackup subj creds =>
      exact wp_quietCall P (Transfer.quiet_exportBackup subj creds) (yields_any _) rfl trivial
        fun doc _ => rfl
    | importBackup subj doc mode => exact wp_importBackup P subj doc mode
    | approveRequest | rejectRequest | cancelJob | retryJob | claimDueJobs | processJob | once
    | createIssuer | updateIssuer | deleteIssuer | ensureCA | signLeaf | enroll => exact hon.elim
  ops_of_starts c g c' hc hstart := by
    obtain ⟨rfl, cert, -, rfl⟩ := hstart
    exact hrun hc cert

/-! ## What a step has written -/

/-- What a step of a call on certificates has done to the database. -/
inductive Wrote (g : Progress) (s : Database) : Call → Ev → Database → Prop where
  | nothing (call : Call) {ev : Ev} (hev : ∀ row, ev ≠ .insertCertificate row (.ok ())) :
      Wrote g s call ev s
  | insert (call : Call) {row : IssuedCertificate} {s' : Database} (hins : Inserted row s s')
      (hfirst : g.minted = []) (hnew : NewRow P call g row) :
      Wrote g s call (.insertCertificate row (.ok ())) s'
  | update {subj : Subjects} {input : CertificateUpdate} {old : IssuedCertificate}
      (hold : g.copy = some old) (hex : (s.certificate? old.tenantID old.id).isSome) :
      Wrote g s (.updateCertificate subj old.id input)
        (.updateCertificate (CertificateUpdate.apply input subj old) (.ok ()))
        (s.mapCertificate old.id (CertificateUpdate.apply input subj old).write
          (CertificateUpdate.apply input subj old).write_id)
  | link {call : Call} {t : Id} {old row : IssuedCertificate} (hold : g.copy = some old)
      (hrow : g.minted = [row]) (hcall : call.renews? = some (t, old.id))
      (hex : (s.certificate? t old.id).isSome) :
      Wrote g s call (.setCertificateStatus t old.id old.status (some row.id) (.ok ()))
        (s.mapCertificate old.id (fun c => c.setStatus old.status (some row.id))
          fun c => c.setStatus_id old.status (some row.id))
  | deliver {call : Call} {t id : Id}
      (hproto : Protocol P call g (.markKeyDelivered t id (.ok ()))) :
      Wrote g s call (.markKeyDelivered t id (.ok ()))
        (s.mapCertificate id IssuedCertificate.delivered IssuedCertificate.delivered_id)
  | revoke {subj : Subjects} {id : Id} {reason : String} {s' : Database}
      (h : Revoked subj.tenantID id s s') :
      Wrote g s (.revoke subj id reason) (.revoke subj.tenantID id (.ok ())) s'
  | delete {subj : Subjects} {id : Id} {s' : Database} (h : Deleted subj.tenantID id s s') :
      Wrote g s (.deleteCertificate subj id) (.deleteCertificate subj.tenantID id (.ok ())) s'
  | restore {subj : Subjects} {doc : Transfer.Document} {mode : String} {rep : Transfer.Report}
      {s' : Database} (h : Transfer.Imported subj.tenantID doc mode s s') :
      Wrote g s (.importBackup subj doc mode)
        (.importBackup subj.tenantID doc mode (.ok rep)) s'
  | complete {subj : Subjects} {id cert : Id} {err : Option Err} {st : RequestStatus}
      {s' : Database} (h : RequestEnded subj.tenantID id st s s') :
      Wrote g s (.finishACME subj id cert err) (.completeRequest subj.tenantID id st (.ok ())) s'

theorem wrote {s s' : Database} {ev : Ev} (heff : Effect s ev s') (hproto : Protocol P call g ev) :
    Wrote P g s call ev s' := by
  have hsame : s' = s → (∀ row, ev ≠ .insertCertificate row (.ok ())) → Wrote P g s call ev s' := by
    rintro rfl hev
    exact .nothing call hev
  cases ev with
  | look | newID | genKey | order | audit | read | readIssuer | sign => exact hsame heff (by simp)
  | getCertificate | readBack | dueForRenewal => exact hsame heff.1 (by simp)
  | insertCertificate row r =>
    cases r with
    | error e => exact hsame heff (by simp)
    | ok _ => exact .insert call heff hproto.1 hproto.2
  | updateCertificate row r =>
    cases r with
    | error e => exact hsame heff (by simp)
    | ok _ =>
      obtain ⟨subj, id, input, old, rfl, hold, rfl, -, rfl⟩ := hproto
      obtain ⟨hex, rfl⟩ := heff
      exact .update hold hex
  | setCertificateStatus t id st sup r =>
    cases r with
    | error e => exact hsame heff (by simp)
    | ok _ =>
      obtain ⟨old, row, hold, hrow, hcall, rfl, rfl, rfl⟩ := hproto
      obtain ⟨hex, rfl⟩ := heff
      exact .link hold hrow hcall hex
  | markKeyDelivered t id r =>
    cases r with
    | error e => exact hsame heff (by simp)
    | ok _ =>
      obtain ⟨-, rfl⟩ := heff
      exact .deliver hproto
  | revoke t id r =>
    obtain ⟨subj, reason, rfl, rfl⟩ := hproto
    cases r with
    | error e => exact hsame heff (by simp)
    | ok _ => exact .revoke heff
  | deleteCertificate t id r =>
    obtain ⟨subj, rfl, rfl⟩ := hproto
    cases r with
    | error e => exact hsame heff (by simp)
    | ok _ => exact .delete heff
  | importBackup t doc mode r =>
    obtain ⟨subj, rfl, rfl⟩ := hproto
    cases r with
    | error e => exact hsame heff (by simp)
    | ok rep => exact .restore heff
  | completeRequest t id st r =>
    obtain ⟨subj, cert, err, rfl, rfl⟩ := hproto
    cases r with
    | error e => exact hsame heff (by simp)
    | ok _ => exact .complete heff
  | insertRequest | approve | setRequestStatus | updateJob | claimDueJobs | processJob
  | recordResult | writeGrants | writeCredentials | ensureCA | insertIssuer | updateIssuer
  | deleteIssuer => exact hproto.elim

end Lcm
