import Lcm.Csr
import Lcm.Issue.Domains

/-!
# Challenge records of an ACME order

`Obtain` of the ACME client: an order is authorized name by name, each with a TXT record that the
DNS provider publishes, and finalized. Whatever comes of it, the published records are removed
before it returns. What the CA and the provider answer is a function of all that has happened.

* `obtain_cleans_up`: through every exit, the records that were published are removed, each once
  and in the order they were published in, and no other.
-/

namespace Lcm.Challenges

open Csr (encodeCertPEM)

/-- A TXT record: `published`. -/
structure Published where
  domain : String
  fqdn : String
  value : String
deriving DecidableEq

structure Challenge where
  type : String
  token : String

structure Authorization where
  uri : String
  valid : Bool
  identifier : String
  /-- a set may hold `nil` -/
  challenges : List (Option Challenge)

structure Order where
  uri : String
  authzURLs : List String
  finalizeURL : String

/-- A call of `Obtain` to the CA or to the DNS provider. -/
inductive Event where
  | authorizeOrder (domains : List String)
  | getAuthorization (url : String)
  | present (r : Published) (ok : Bool)
  | accept (c : Challenge)
  | waitAuthorization (uri : String)
  | waitOrder (uri : String)
  | createOrderCert (url : String)
  | fetchCert (url : String)
  | cleanUp (r : Published)

inductive Sentinel where
  | order
  | challenge
  | provider
  | timeout

/-- An error of `Obtain`: a sentinel, with a cause or without. -/
structure Failure where
  sentinel : Sentinel
  cause : Option String

/-- The cause of an error, and whether it is a deadline or a cancellation. -/
structure Cause where
  text : String
  ended : Bool

/-- What the CA and the DNS provider answer after the given events, and whether the context is done
then. -/
structure World where
  done : List Event → Bool
  authorizeOrder : List Event → Except Cause Order
  getAuthorization : List Event → Except Cause Authorization
  dns01Record : String → Except Cause String
  present : List Event → Except Cause Unit
  accept : List Event → Except Cause Unit
  waitAuthorization : List Event → Except Cause Unit
  /-- the URL of the certificate -/
  waitOrder : List Event → Except Cause String
  createOrderCert : List Event → Except Cause (List Blob)
  fetchCert : List Event → Except Cause (List Blob)

/-- What has happened, and `records`. -/
structure State where
  trace : List Event
  records : List Published

/-- A part of `Obtain`. -/
def Part (α : Type) : Type := State → Except Failure α × State

instance : Monad Part where
  pure a := fun st => (.ok a, st)
  bind m f := fun st => match m st with
    | (.ok a, st) => f a st
    | (.error e, st) => (.error e, st)

variable {α : Type} (P : Platform) (w : World)

/-- An early return. -/
def fail (e : Failure) : Part α := fun st => (.error e, st)

/-- An error ends the call: `wrap`. -/
def orWrap (sentinel : Sentinel) : Except Cause α → Part α
  | .ok a => pure a
  | .error cause => fun st =>
    if w.done st.trace || cause.ended then (.error ⟨.timeout, none⟩, st)
    else (.error ⟨sentinel, some cause.text⟩, st)

def call (ev : Event) (answer : List Event → Except Cause α) : Part (Except Cause α) :=
  fun st => (.ok (answer st.trace), { st with trace := st.trace ++ [ev] })

/-- A call whose error ends `Obtain`. -/
def ask (sentinel : Sentinel) (ev : Event) (answer : List Event → Except Cause α) : Part α :=
  call ev answer >>= orWrap w sentinel

def dns01Challenge (chals : List (Option Challenge)) : Option Challenge :=
  (chals.filterMap id).find? fun c => c.type == "dns-01"

/-- `DNSProvider.Present`, and the record that is to be removed. -/
def present (r : Published) : Part Unit := fun st =>
  match w.present st.trace with
  | .ok () => (.ok (), ⟨st.trace ++ [.present r true], st.records ++ [r]⟩)
  | .error cause =>
    (.error ⟨.provider, some cause.text⟩, ⟨st.trace ++ [.present r false], st.records⟩)

/-- The body of the loop over the authorizations. -/
def authorize (url : String) : Part Unit := do
  let authz ← ask w .challenge (.getAuthorization url) w.getAuthorization
  if authz.valid then pure ()
  else match dns01Challenge authz.challenges with
    | none => fail ⟨.challenge, none⟩
    | some chal => do
      let value ← orWrap w .challenge (w.dns01Record chal.token)
      present w ⟨authz.identifier, "_acme-challenge." ++ authz.identifier, value⟩
      ask w .challenge (.accept chal) w.accept
      ask w .challenge (.waitAuthorization authz.uri) w.waitAuthorization

def authorizeAll : List String → Part Unit
  | [] => pure ()
  | url :: urls => do
    authorize w url
    authorizeAll urls

/-- The chain of a finalized order. Some CAs finalize asynchronously. -/
def finalize (order : Order) : Part (List Blob) := do
  let _ ← ask w .order (.waitOrder order.uri) w.waitOrder
  match ← call (.createOrderCert order.finalizeURL) w.createOrderCert with
  | .ok ders => pure ders
  | .error cause => do
    let certURL ← ask w .order (.waitOrder order.uri) w.waitOrder
    if certURL = "" then orWrap w .order (.error cause)
    else ask w .order (.fetchCert certURL) w.fetchCert

def maxCSRBytes : Nat := 65536

/-- `Obtain` up to its return. -/
def order (csrDER : Blob) (domains : List String) : Part String := do
  if csrDER.length = 0 ∨ csrDER.length > maxCSRBytes then fail ⟨.order, none⟩
  else if domains.length = 0 ∨ domains.length > Issue.maxDomains then fail ⟨.order, none⟩
  else do
    let order ← ask w .order (.authorizeOrder domains) w.authorizeOrder
    authorizeAll w order.authzURLs
    let ders ← finalize w order
    let chain := String.join (ders.map (encodeCertPEM P))
    if chain = "" then fail ⟨.order, none⟩ else pure chain

/-- `Obtain`: the result, and all that has happened. The deferred function removes the records. -/
def obtain (csrDER : Blob) (domains : List String) : Except Failure String × List Event :=
  let (r, st) := order P w csrDER domains ⟨[], []⟩
  (r, st.trace ++ st.records.map .cleanUp)

def Event.onRecord : Event → Bool
  | present _ _ | cleanUp _ => true
  | _ => false

def Event.published? : Event → Option Published
  | present r true => some r
  | _ => none

/-- The records that have been published are those to be removed, and none has been removed. -/
structure Recorded (st : State) : Prop where
  records : st.trace.filterMap Event.published? = st.records
  kept : ∀ r, .cleanUp r ∉ st.trace

/-- The part keeps book of the records, however it ends. -/
def Keeps (m : Part α) : Prop := ∀ st, Recorded st → Recorded (m st).2

section Rules

variable {w} {β : Type}

theorem keeps_pure (a : α) : Keeps (pure a : Part α) := fun _ h => h

theorem keeps_fail (e : Failure) : Keeps (fail e : Part α) := fun _ h => h

theorem Keeps.bind {m : Part α} {f : α → Part β} (hm : Keeps m) (hf : ∀ a, Keeps (f a)) :
    Keeps (m >>= f) := by
  intro st hst
  have hkept := hm st hst
  show Recorded (match m st with
    | (.ok a, st) => f a st
    | (.error e, st) => (.error e, st)).2
  generalize m st = p at hkept ⊢
  obtain ⟨r, st⟩ := p
  cases r with
  | ok a => exact hf a st hkept
  | error e => exact hkept

theorem keeps_call {ev : Event} (answer : List Event → Except Cause α)
    (hev : ev.onRecord = false) : Keeps (call ev answer) := by
  intro st hst
  constructor
  · show (st.trace ++ [ev]).filterMap Event.published? = st.records
    rw [List.filterMap_append, hst.records]
    cases ev <;> first | exact List.append_nil _ | cases hev
  intro r hr
  rcases List.mem_append.1 hr with hr | hr
  · exact hst.kept r hr
  · rw [← List.mem_singleton.1 hr] at hev
    cases hev

theorem keeps_orWrap (sentinel : Sentinel) (r : Except Cause α) :
    Keeps (orWrap w sentinel r) := by
  intro st hst
  cases r with
  | ok a => exact hst
  | error cause =>
    unfold orWrap
    dsimp only
    split
    · exact hst
    · exact hst

theorem keeps_ask {ev : Event} (sentinel : Sentinel) (answer : List Event → Except Cause α)
    (hev : ev.onRecord = false) : Keeps (ask w sentinel ev answer) :=
  (keeps_call answer hev).bind (keeps_orWrap sentinel)

theorem keeps_present (r : Published) : Keeps (present w r) := by
  intro st hst
  have hkept : ∀ ok r', Event.cleanUp r' ∉ st.trace ++ [.present r ok] := by
    intro ok r' hr
    rcases List.mem_append.1 hr with hr | hr
    · exact hst.kept r' hr
    · cases List.mem_singleton.1 hr
  unfold present
  split
  · exact ⟨by simp [hst.records, Event.published?], hkept true⟩
  · exact ⟨by simp [hst.records, Event.published?], hkept false⟩

end Rules

theorem keeps_authorize (url : String) : Keeps (authorize w url) := by
  refine (keeps_ask _ _ rfl).bind fun authz => ?_
  split
  · exact keeps_pure _
  split
  · exact keeps_fail _
  refine (keeps_orWrap _ _).bind fun value => (keeps_present _).bind fun _ => ?_
  refine (keeps_ask _ _ rfl).bind fun _ => ?_
  exact keeps_ask _ _ rfl

theorem keeps_authorizeAll (urls : List String) : Keeps (authorizeAll w urls) := by
  induction urls with
  | nil => exact keeps_pure _
  | cons url urls ih => exact (keeps_authorize w url).bind fun _ => ih

theorem keeps_finalize (order : Order) : Keeps (finalize w order) := by
  refine (keeps_ask _ _ rfl).bind fun _ => ?_
  refine (keeps_call _ rfl).bind fun r => ?_
  split
  · exact keeps_pure _
  refine (keeps_ask _ _ rfl).bind fun _ => ?_
  split
  · exact keeps_orWrap _ _
  · exact keeps_ask _ _ rfl

theorem keeps_order (csrDER : Blob) (domains : List String) :
    Keeps (order P w csrDER domains) := by
  unfold order
  split
  · exact keeps_fail _
  split
  · exact keeps_fail _
  refine (keeps_ask _ _ rfl).bind fun order => ?_
  refine (keeps_authorizeAll w _).bind fun _ => (keeps_finalize w order).bind fun ders => ?_
  dsimp only
  split
  · exact keeps_fail _
  · exact keeps_pure _

/-- For every CA and every DNS provider: at the end of `Obtain`, and nowhere else, each record that
was published is removed once, in the order they were published in, and no other one is. -/
theorem obtain_cleans_up (csrDER : Blob) (domains : List String) :
    ∃ before, (∀ r, Event.cleanUp r ∉ before) ∧ (obtain P w csrDER domains).2 =
      before ++ (before.filterMap Event.published?).map .cleanUp := by
  have h : Recorded (order P w csrDER domains ⟨[], []⟩).2 :=
    keeps_order P w csrDER domains ⟨[], []⟩ ⟨rfl, fun _ => List.not_mem_nil⟩
  refine ⟨_, h.kept, ?_⟩
  rw [h.records]
  rfl

end Lcm.Challenges
