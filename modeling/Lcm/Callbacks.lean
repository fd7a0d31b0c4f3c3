import Lcm.System
import Lcm.Webhook
import Mathlib.Data.List.Forall2

/-!
# Deliveries to webhook endpoints

`Deliver` of `webhook.go`: the endpoints that are subscribed to an event get it one after the
other, each in a bounded number of attempts. An attempt is one `post`, and the client of `net/http`
follows redirects: a request more for each, and the status is the one that is left in the end.
`replies` is the sequence of what comes of the requests of one call. The context is never cancelled,
so that `wait` takes time and nothing else.

* `Sent`: the requests of one attempt.
* `Disciplined`: the attempts at one endpoint.
* `deliver_disciplined`: every endpoint is treated so, whatever the others answer, and `Deliver`
  returns nil just when all have taken the event in the end.
* `redirect_posts_again`: the requests are not bounded by the tries.
-/

namespace Lcm.Webhook

open List

/-! ## The client -/

inductive Method where
  | get
  | post
deriving DecidableEq

structure Request where
  method : Method
  url : String
deriving DecidableEq

/-- What comes of a request: a status with the `Location` header, or a transport error. -/
inductive Reply where
  | status (code : Nat) (location : String)
  | failed (text : String)
deriving DecidableEq

/-- What `post` returns: a status, or an error. -/
inductive Answer where
  | status (code : Nat)
  | failed (text : String)
deriving DecidableEq

structure Exchange where
  request : Request
  reply : Reply
deriving DecidableEq

/-- One `post`: the requests it makes, and what it returns. -/
structure Attempt where
  exchanges : List Exchange
  answer : Answer

/-- The requests `net/http` makes at most for one. -/
def maxRequests : Nat := 10

/-- `redirectBehavior`: the method of the request that follows. -/
def redirectMethod (method : Method) (code : Nat) : Option Method :=
  if code = 301 ∨ code = 302 ∨ code = 303 then some .get
  else if code = 307 ∨ code = 308 then some method
  else none

section Client

variable (P : Platform) (resolve : String → String → Option String) (replies : Nat → Reply)

/-- What `Client.Do` makes of a reply: it returns, or sends another request. `resolve` is `Parse` of
a URL and a `Location`. -/
def next (req : Request) : Reply → Answer ⊕ Request
  | .failed text => .inl (.failed text)
  | .status code location =>
    match redirectMethod req.method code with
    | none => .inl (.status code)
    | some method =>
      if location = "" then .inl (.status code)
      else match resolve req.url location with
        | none => .inl (.failed "failed to parse Location header")
        | some url => .inr ⟨method, url⟩

def tooManyRedirects : Answer := .failed "stopped after 10 redirects"

/-- `Client.Do`, with so many requests left; the request is the `n`-th of the call. -/
def follow : (n left : Nat) → Request → Attempt
  | _, 0, _ => ⟨[], tooManyRedirects⟩
  | n, left + 1, req =>
    match next resolve req (replies n) with
    | .inl a => ⟨[⟨req, replies n⟩], a⟩
    | .inr req' =>
      let r := follow (n + 1) left req'
      ⟨⟨req, replies n⟩ :: r.exchanges, r.answer⟩

def post (n : Nat) (target : String) : Attempt :=
  match P.urlParse target with
  | none => ⟨[], .failed "parse"⟩
  | some _ => follow resolve replies n maxRequests ⟨.post, target⟩

end Client

/-! ## `Deliver` -/

/-- The endpoint has taken the event. -/
def Answer.taken : Answer → Bool
  | status code => code < 300
  | failed _ => false

/-- A client error, which ends the attempts. -/
def Answer.refused : Answer → Bool
  | status code => 400 ≤ code && code < 500
  | failed _ => false

/-- An error of `Deliver`. -/
inductive DeliverError where
  | tooLarge
  | store (e : Err)
  /-- the signing secret could not be opened -/
  | unopened (id : Id)
  | undelivered (id : Id) (a : Answer)
deriving DecidableEq

def maxPayloadBytes : Nat := 65536

/-- The requests of the attempts. -/
def exchangesOf (as : List Attempt) : List Exchange := as.flatMap Attempt.exchanges

section Model

variable (P : Platform) (resolve : String → String → Option String) (tries : Nat)
  (replies : Nat → Reply)

/-- The loop of `deliverOne`, before the `n`-th request: the attempts, and what it returns.
`last` is `lastErr`. -/
def attempts (ep : WebhookEndpoint) : (n left : Nat) → (last : Option DeliverError) →
    List Attempt × Option DeliverError
  | _, 0, last => ([], last)
  | n, left + 1, _ =>
    let a := post P resolve replies n ep.url
    if a.answer.taken then ([a], none)
    else if a.answer.refused then ([a], some (.undelivered ep.id a.answer))
    else
      let r := attempts ep (n + a.exchanges.length) left (some (.undelivered ep.id a.answer))
      (a :: r.1, r.2)

/-- The attempts an endpoint gets. -/
def bound : Nat := if tries < 1 then 1 else tries

def deliverOne (n : Nat) (ep : WebhookEndpoint) : List Attempt × Option DeliverError :=
  match P.envOpen ep.secretSealed (Ca.adWebhook ep.id) with
  | none => ([], some (.unopened ep.id))
  | some _ => attempts P resolve replies ep n (bound tries) none

/-- The loop of `Deliver`: the attempts, each with its endpoint, and the errors. -/
def deliverAll : Nat → List WebhookEndpoint → List (Id × Attempt) × List DeliverError
  | _, [] => ([], [])
  | n, ep :: eps =>
    let r := deliverOne P resolve tries replies n ep
    let rest := deliverAll (n + (exchangesOf r.1).length) eps
    (r.1.map (ep.id, ·) ++ rest.1, r.2.toList ++ rest.2)

/-- `Deliver` of a payload to the endpoints that `WebhooksForEvent` has found. The errors are
joined, and none make nil. -/
def deliver (payload : Blob) (endpoints : Except Err (List WebhookEndpoint)) :
    List (Id × Attempt) × List DeliverError :=
  if payload.length > maxPayloadBytes then ([], [.tooLarge])
  else match endpoints with
    | .error e => ([], [.store e])
    | .ok eps => deliverAll P resolve tries replies 0 eps

end Model

/-! ## The requests of an attempt -/

variable {P : Platform} {resolve : String → String → Option String} {tries n : Nat}
  {replies : Nat → Reply}

/-- An attempt starts with the request, goes on with another one just as long as the reply is a
redirect to it, and returns what the last reply comes to, unless the requests are used up. -/
structure Sent (resolve : String → String → Option String) (limit : Nat) (req : Request)
    (a : Attempt) : Prop where
  first : a.exchanges.head?.map Exchange.request = some req
  bounded : a.exchanges.length ≤ limit
  followed : a.exchanges.IsChain fun x y => next resolve x.request x.reply = .inr y.request
  returned : ∃ x ∈ a.exchanges.getLast?, next resolve x.request x.reply = .inl a.answer ∨
    (a.exchanges.length = limit ∧ (next resolve x.request x.reply).isRight ∧
      a.answer = tooManyRedirects)

/-- The requests get the replies in order, from the `n`-th on. -/
def Answered (replies : Nat → Reply) (n : Nat) (xs : List Exchange) : Prop :=
  xs.map Exchange.reply = (range' n xs.length).map replies

theorem Answered.append {xs ys : List Exchange} (h : Answered replies n xs)
    (h' : Answered replies (n + xs.length) ys) : Answered replies n (xs ++ ys) := by
  unfold Answered at *
  rw [map_append, h, h', length_append, ← range'_append_1, map_append]

theorem sent_follow (left n : Nat) (req : Request) :
    let a := follow resolve replies n (left + 1) req
    Sent resolve (left + 1) req a ∧ Answered replies n a.exchanges := by
  induction left generalizing n req with
  | zero =>
    unfold follow
    split
    · next a h => exact ⟨⟨rfl, Nat.le_refl 1, .singleton _, _, rfl, .inl h⟩, rfl⟩
    · next req' h =>
      have hright : (next resolve req (replies n)).isRight = true := by rw [h]; rfl
      exact ⟨⟨rfl, Nat.le_refl 1, .singleton _, _, rfl, .inr ⟨rfl, hright, rfl⟩⟩, rfl⟩
  | succ left ih =>
    unfold follow
    split
    · next a h =>
      exact ⟨⟨rfl, Nat.succ_le_succ (Nat.zero_le _), .singleton _, _, rfl, .inl h⟩, rfl⟩
    next req' h =>
    obtain ⟨hsent, hanswered⟩ := ih (n + 1) req'
    dsimp only at hsent hanswered ⊢
    generalize follow resolve replies (n + 1) (left + 1) req' = r at hsent hanswered ⊢
    -- the request that follows is the first of the others
    obtain ⟨x, xs, hxs⟩ : ∃ x xs, r.exchanges = x :: xs := by
      cases hr : r.exchanges with
      | nil => simpa [hr] using hsent.first
      | cons x xs => exact ⟨x, xs, rfl⟩
    have hx : x.request = req' := by simpa [hxs] using hsent.first
    refine ⟨⟨rfl, Nat.succ_le_succ hsent.bounded, ?_, ?_⟩, ?_⟩
    · rw [hxs]
      exact .cons_cons (hx ▸ h) (hxs ▸ hsent.followed)
    · obtain ⟨y, hy, hreturned⟩ := hsent.returned
      refine ⟨y, ?_, hreturned.imp_right fun hlimit => ⟨congrArg (· + 1) hlimit.1, hlimit.2⟩⟩
      rw [hxs] at hy ⊢
      exact hy
    · have hone : Answered replies n [⟨req, replies n⟩] := rfl
      exact hone.append hanswered

/-! ## The attempts at an endpoint -/

/-- There is one attempt at least and `tries` at most. Only answers that are neither taken nor
refused are followed by another attempt, and they are while there are tries left. -/
structure Disciplined (tries : Nat) (as : List Answer) : Prop where
  posted : as ≠ []
  bounded : as.length ≤ tries
  retried : ∀ a ∈ as.dropLast, a.taken = false ∧ a.refused = false
  ended : as.length < tries → ∃ a ∈ as.getLast?, a.taken = true ∨ a.refused = true

/-- The last answer is the one of an endpoint that has taken the event. -/
def Taken (as : List Answer) : Prop := ∃ a ∈ as.getLast?, a.taken = true

theorem disciplined_single {a : Answer} (ha : a.taken = true ∨ a.refused = true)
    (htries : 0 < tries) : Disciplined tries [a] :=
  ⟨cons_ne_nil _ _, htries, fun _ h => (by cases h), fun _ => ⟨a, rfl, ha⟩⟩

theorem Disciplined.cons {a : Answer} {as : List Answer} (h : Disciplined tries as)
    (ha : a.taken = false ∧ a.refused = false) : Disciplined (tries + 1) (a :: as) := by
  obtain ⟨b, bs, rfl⟩ := exists_cons_of_ne_nil h.posted
  refine ⟨cons_ne_nil _ _, Nat.succ_le_succ h.bounded, ?_, ?_⟩
  · intro x hx
    rcases mem_cons.1 hx with rfl | hx
    · exact ha
    · exact h.retried x hx
  · intro hlt
    exact h.ended (Nat.lt_of_succ_lt_succ hlt)

/-- What the attempts at one endpoint come to. -/
structure Ended (resolve : String → String → Option String) (replies : Nat → Reply)
    (tries n : Nat) (url : String) (r : List Attempt × Option DeliverError) : Prop where
  disciplined : Disciplined tries (r.1.map Attempt.answer)
  sent : ∀ a ∈ r.1, Sent resolve maxRequests ⟨.post, url⟩ a
  answered : Answered replies n (exchangesOf r.1)
  result : r.2 = none ↔ Taken (r.1.map Attempt.answer)

theorem ended_attempts {ep : WebhookEndpoint} (hurl : (P.urlParse ep.url).isSome) (left n : Nat)
    (last : Option DeliverError) : Ended resolve replies (left + 1) n ep.url
      (attempts P resolve replies ep n (left + 1) last) := by
  obtain ⟨u, hu⟩ := Option.isSome_iff_exists.1 hurl
  have hpost : ∀ n, Sent resolve maxRequests ⟨.post, ep.url⟩ (post P resolve replies n ep.url) ∧
      Answered replies n (post P resolve replies n ep.url).exchanges := by
    intro n
    unfold post
    rw [hu]
    exact sent_follow 9 n _
  induction left generalizing n last with
  | zero =>
    obtain ⟨hsent, hanswered⟩ := hpost n
    unfold attempts
    generalize post P resolve replies n ep.url = a at hsent hanswered ⊢
    have hone : ∀ b ∈ [a], Sent resolve maxRequests ⟨.post, ep.url⟩ b := by simpa using hsent
    have hexchanges : Answered replies n (exchangesOf [a]) := by simpa [exchangesOf] using hanswered
    dsimp only
    split
    · next h => exact ⟨disciplined_single (.inl h) Nat.one_pos, hone, hexchanges, by simp [Taken, h]⟩
    split
    · next ht hr =>
      exact ⟨disciplined_single (.inr hr) Nat.one_pos, hone, hexchanges,
        by simpa [Taken] using ht⟩
    rename_i ht hr
    refine ⟨⟨cons_ne_nil _ _, Nat.le_refl 1, fun _ h => (by cases h), ?_⟩, hone, hexchanges, ?_⟩
    · exact fun h => absurd h (Nat.lt_irrefl 1)
    · simpa [attempts, Taken] using ht
  | succ left ih =>
    obtain ⟨hsent, hanswered⟩ := hpost n
    unfold attempts
    generalize post P resolve replies n ep.url = a at hsent hanswered ⊢
    have hone : ∀ b ∈ [a], Sent resolve maxRequests ⟨.post, ep.url⟩ b := by simpa using hsent
    have hexchanges : Answered replies n (exchangesOf [a]) := by simpa [exchangesOf] using hanswered
    dsimp only
    split
    · next h =>
      exact ⟨disciplined_single (.inl h) (Nat.succ_pos _), hone, hexchanges, by simp [Taken, h]⟩
    split
    · next ht hr =>
      exact ⟨disciplined_single (.inr hr) (Nat.succ_pos _), hone, hexchanges,
        by simpa [Taken] using ht⟩
    rename_i ht hr
    have hrest := ih (n + a.exchanges.length) (some (.undelivered ep.id a.answer))
    generalize attempts P resolve replies ep (n + a.exchanges.length) (left + 1) _ = r at hrest ⊢
    obtain ⟨b, bs, hbs⟩ := exists_cons_of_ne_nil hrest.disciplined.posted
    refine ⟨hrest.disciplined.cons ⟨by simpa using ht, by simpa using hr⟩, ?_, ?_, ?_⟩
    · exact forall_mem_cons.2 ⟨hsent, hrest.sent⟩
    · exact hanswered.append hrest.answered
    · rw [hrest.result, Taken, Taken, map_cons, hbs, getLast?_cons_cons]

theorem bound_eq (tries : Nat) : ∃ left, bound tries = left + 1 := by
  unfold bound
  split
  · exact ⟨0, rfl⟩
  · exact ⟨tries - 1, by omega⟩

/-! ## All endpoints -/

/-- Each endpoint has a block of the answers to itself, with discipline, and there is no error just
when each endpoint has taken the event in the end. -/
def Orderly {ε : Type} (answer : ε → Answer) (tries : Nat) (each : WebhookEndpoint → ε → Prop)
    (eps : List WebhookEndpoint) (posts : List (Id × ε)) (errs : List DeliverError) : Prop :=
  ∃ blocks, posts = blocks.flatten ∧
    List.Forall₂ (fun ep b => Disciplined tries (b.map fun x => answer x.2) ∧
      ∀ x ∈ b, x.1 = ep.id ∧ each ep x.2) eps blocks ∧
    (errs = [] ↔ ∀ b ∈ blocks, Taken (b.map fun x => answer x.2))

theorem orderly_deliverAll {eps : List WebhookEndpoint}
    (hurl : ∀ ep ∈ eps, (P.urlParse ep.url).isSome)
    (hopen : ∀ ep ∈ eps, (P.envOpen ep.secretSealed (Ca.adWebhook ep.id)).isSome) (n : Nat) :
    let d := deliverAll P resolve tries replies n eps
    Orderly Attempt.answer (bound tries) (fun ep => Sent resolve maxRequests ⟨.post, ep.url⟩) eps
      d.1 d.2 ∧ Answered replies n (exchangesOf (d.1.map Prod.snd)) := by
  induction eps generalizing n with
  | nil => exact ⟨⟨[], rfl, .nil, by simp [deliverAll]⟩, rfl⟩
  | cons ep eps ih =>
    obtain ⟨secret, hsecret⟩ := Option.isSome_iff_exists.1 (hopen ep mem_cons_self)
    obtain ⟨left, hleft⟩ := bound_eq tries
    have hone : Ended resolve replies (bound tries) n ep.url
        (deliverOne P resolve tries replies n ep) := by
      unfold deliverOne
      rw [hsecret, hleft]
      exact ended_attempts (hurl ep mem_cons_self) left n none
    unfold deliverAll
    dsimp only
    generalize deliverOne P resolve tries replies n ep = r at hone ⊢
    have hrest := ih (fun x hx => hurl x (mem_cons_of_mem ep hx))
      (fun x hx => hopen x (mem_cons_of_mem ep hx)) (n + (exchangesOf r.1).length)
    dsimp only at hrest
    generalize deliverAll P resolve tries replies (n + (exchangesOf r.1).length) eps = rest
      at hrest ⊢
    obtain ⟨⟨blocks, hposts, hblocks, hnil⟩, hanswered⟩ := hrest
    have hsnd : (r.1.map (ep.id, ·)).map (fun x => x.2.answer) = r.1.map Attempt.answer := by simp
    refine ⟨⟨r.1.map (ep.id, ·) :: blocks, by rw [hposts]; rfl, .cons ⟨?_, ?_⟩ hblocks, ?_⟩, ?_⟩
    · rw [hsnd]
      exact hone.disciplined
    · simpa using hone.sent
    · simp only [append_eq_nil_iff, forall_mem_cons, hsnd, hnil, ← hone.result]
      cases r.2 <;> simp
    · have happ : exchangesOf ((r.1.map (ep.id, ·) ++ rest.1).map Prod.snd) =
          exchangesOf r.1 ++ exchangesOf (rest.1.map Prod.snd) := by
        simp [exchangesOf, flatMap_append, Function.comp_def]
      rw [happ]
      exact hone.answered.append hanswered

/-- `Deliver` is orderly in its attempts, for every list of endpoints and every sequence of
replies. -/
theorem deliver_disciplined (tries : Nat) (replies : Nat → Reply) {payload : Blob}
    {eps : List WebhookEndpoint} (hsize : payload.length ≤ maxPayloadBytes)
    (hurl : ∀ ep ∈ eps, (P.urlParse ep.url).isSome)
    (hopen : ∀ ep ∈ eps, (P.envOpen ep.secretSealed (Ca.adWebhook ep.id)).isSome) :
    let d := deliver P resolve tries replies payload (.ok eps)
    Orderly Attempt.answer (bound tries) (fun ep => Sent resolve maxRequests ⟨.post, ep.url⟩) eps
      d.1 d.2 ∧ Answered replies 0 (exchangesOf (d.1.map Prod.snd)) := by
  unfold deliver
  rw [if_neg (Nat.not_lt.2 hsize)]
  exact orderly_deliverAll hurl hopen 0

/-! ## The posts -/

def Reply.answer : Reply → Answer
  | status code _ => .status code
  | failed text => .failed text

/-- The posts of the attempts, with their replies. -/
def posts (d : List (Id × Attempt)) : List (Id × Reply) :=
  d.flatMap fun x => (x.2.exchanges.filter fun y => y.request.method = .post).map fun y =>
    (x.1, y.reply)

section Sample

open Lcm.Sample

/-- The sample platform with the URL of one server. -/
def web : Platform :=
  { platform with
    urlParse := fun s => if s = "https://h" then
      some ⟨"https", "", false, "h", "", "", "", false, "", "", s⟩ else none }

def hook : WebhookEndpoint :=
  ⟨9, 1, "hook", "https://h", ["certificate.issued"], bytes (Ca.adWebhook 9), true, none, none, 0⟩

/-- A `Location` that is a URL. -/
def absolute (_ location : String) : Option String := some location

/-- The server is out of service for the first request. -/
def outage (n : Nat) : Reply := .status (if n = 0 then 503 else 200) ""

theorem deliver_disciplined_retry :
    let d := deliver web absolute 3 outage [] (.ok [hook])
    Orderly Attempt.answer 3 (fun ep => Sent absolute maxRequests ⟨.post, ep.url⟩) [hook]
      d.1 d.2 ∧ Answered outage 0 (exchangesOf (d.1.map Prod.snd)) :=
  deliver_disciplined 3 outage (by decide) (by decide) (by decide)

/-- The first request is redirected to a page. -/
def moved (n : Nat) : Reply := if n = 0 then .status 302 "https://h/page" else .status 200 ""

/-- An endpoint that redirects each post to itself is posted to ten times in one attempt. One that
redirects the post to a page has not taken the event, and `Deliver` returns nil. -/
theorem redirect_posts_again :
    let again := deliver web absolute 1 (fun _ => .status 307 "https://h") [] (.ok [hook])
    let page := deliver web absolute 3 moved [] (.ok [hook])
    ¬ Orderly Reply.answer (bound 1) (fun _ _ => True) [hook] (posts again.1) again.2 ∧
      ¬ Orderly Reply.answer (bound 3) (fun _ _ => True) [hook] (posts page.1) page.2 := by
  intro again page
  -- all posts are those to the one endpoint
  have hone : ∀ {tries : Nat} {ps : List (Id × Reply)} {errs : List DeliverError},
      Orderly Reply.answer tries (fun _ _ => True) [hook] ps errs →
      Disciplined tries (ps.map fun x => x.2.answer) ∧
        (errs = [] ↔ Taken (ps.map fun x => x.2.answer)) := by
    rintro tries ps errs ⟨blocks, rfl, hblocks, hnil⟩
    cases hblocks with
    | cons hb hrest =>
      cases hrest
      simpa using And.intro hb.1 hnil
  constructor
  · intro h
    have hbounded := (hone h).1.bounded
    revert hbounded
    decide
  · intro h
    obtain ⟨a, ha, htaken⟩ := (hone h).2.1 (by decide)
    have hlast : a = .status 302 := by
      have hposts : (posts (deliver web absolute 3 moved [] (.ok [hook])).1).map
          (fun x => x.2.answer) = [.status 302] := by decide
      rw [hposts] at ha
      exact (Option.some.inj ha).symm
    rw [hlast] at htaken
    exact absurd htaken (by decide)

end Sample

end Lcm.Webhook
