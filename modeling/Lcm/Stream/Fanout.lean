import Lcm.Stream.Hub
import Mathlib.Data.List.Perm.Basic
import Mathlib.Data.List.Nodup

/-!
# The whole hub

All subscriptions of all tenants (`stream/hub.go`). An action is one critical section, one
operation on a channel, or one call of the stream's client, and the actions of `Subscribe`, of
the tenants' loops, of `Subscription.Close` and of `Hub.Close` interleave in any order.

* `Port`: what the pushers and closers of one subscription share: its high-water mark, its
  closed flag and its channel.
* `Account`: what the hub's lock protects of a tenant: the open subscriptions, the counters and
  the cancellation of its loop.
* `Hub.step`: the actions.
* `Hub.Effect`: what an action can do to one port.

`Close` runs its body once, so a second call does nothing: it finds the subscription closed.
`Hub.Close` cancels the hub's context and then closes the subscriptions it finds, each with a
`close` and a `shut` like those of any other caller.
-/

namespace Lcm.Stream

open List

/-! ## Ports -/

structure Port where
  /-- the high-water mark -/
  last : Option StreamID
  /-- the flag `Close` sets under the lock -/
  closed : Bool
  /-- `close(s.ch)` has been executed -/
  shut : Bool
  /-- everything that has been queued to the channel, oldest first -/
  queued : List Event
  /-- how many of these the reader has taken -/
  taken : Nat
  /-- a push has sent on the closed channel, which is a panic -/
  panicked : Bool
deriving DecidableEq

namespace Port

/-- A new subscription. -/
def fresh : Port := ⟨none, false, false, [], 0, false⟩

/-- The critical section of `push` lets the event pass. -/
def passes (p : Port) (ev : Event) : Bool :=
  !p.closed && ev.id.all fun id => p.last.all fun l => less l id

/-- The mark after an event has passed. -/
def mark (p : Port) (ev : Event) : Port := { p with last := ev.id <|> p.last }

def hasRoom (p : Port) : Bool := decide (p.queued.length - p.taken < connBuffer)

/-- The send of `push`. A full channel leaves the event out. -/
def send (p : Port) (ev : Event) : Port :=
  if p.shut then { p with panicked := true }
  else if p.hasRoom then { p with queued := p.queued ++ [ev] }
  else p

def take (p : Port) : Port := if p.taken < p.queued.length then { p with taken := p.taken + 1 } else p

end Port

/-! ## Subscriptions and tenants -/

/-- One stream of a user; `replay` tells how far `Subscribe` has come. -/
structure Subscription where
  tenant : Id
  user : String
  /-- the id the replay starts after -/
  start : StreamID
  replay : Replay
  port : Port
deriving DecidableEq

/-- What is pushed and has not been sent. -/
def Replay.flying? : Replay → Option Event
  | .sending e _ => some e.event
  | .sendingReset reason => some (resetEvent reason)
  | _ => none

/-- What the hub's lock protects of a `tenantSub`. Users without a stream have no counter, which
is a counter of zero. -/
structure Account where
  tenant : Id
  conns : List Nat
  byUser : String → Int
  cancelled : Bool

namespace Account

/-- `Subscribe` registers subscription `i`. -/
def add (a : Account) (i : Nat) (user : String) : Account :=
  { a with
    conns := a.conns ++ [i]
    byUser := Function.update a.byUser user (a.byUser user + 1) }

/-- `Close` removes subscription `i`; the last one cancels the loop. -/
def remove (a : Account) (i : Nat) (user : String) : Account :=
  let n := a.byUser user - 1
  { a with
    conns := a.conns.erase i
    byUser := Function.update a.byUser user (if n ≤ 0 then 0 else n)
    cancelled := a.cancelled || (a.conns.erase i).isEmpty }

end Account

/-- How far a loop has come with the entry it dispatches. -/
inductive Phase where
  | reading
  /-- these subscriptions are left -/
  | pushing (e : Entry) (todo : List Nat)
  /-- `push` to `i` has passed its critical section and has not sent yet -/
  | sending (e : Entry) (i : Nat) (todo : List Nat)
  /-- `i` has stalled and is being closed -/
  | closing (e : Entry) (i : Nat) (todo : List Nat)
deriving DecidableEq

/-- What is pushed to `i` and has not been sent. -/
def Phase.flying? (i : Nat) : Phase → Option Event
  | .sending e j _ => if j = i then some e.event else none
  | _ => none

def Phase.next? : Phase → Option Nat
  | .pushing _ (i :: _) => some i
  | _ => none

/-- A `tenantSub` with its loop. -/
structure TenantSub where
  account : Account
  loop : Loop
  phase : Phase
  /-- the loop has returned -/
  ended : Bool

/-- The hub, with Valkey's streams. Subscriptions and `tenantSub`s are named by their place in
the order they were made. -/
structure Hub where
  /-- the hub's context is cancelled -/
  done : Bool
  streams : Id → List Entry
  tenants : Id → Option Nat
  tenantSubs : List TenantSub
  subs : List Subscription

/-- The settings as they are handed to `NewHub`. -/
structure Config where
  replayWindow : Duration
  streamsPerUser : Int
  streamsPerTenant : Int
  maxLen : Int

/-- `NewHub` replaces what is not positive. -/
def Config.bounds (c : Config) : HubConfig where
  replayWindow := if c.replayWindow ≤ 0 then 300 * second else c.replayWindow
  streamsPerUser := (if c.streamsPerUser ≤ 0 then 5 else c.streamsPerUser).toNat
  streamsPerTenant := (if c.streamsPerTenant ≤ 0 then 2000 else c.streamsPerTenant).toNat
  maxLen := (if c.maxLen ≤ 0 then 10000 else c.maxLen).toNat

/-- `NewHub`. -/
def Hub.new (streams : Id → List Entry) : Hub := ⟨false, streams, fun _ => none, [], []⟩

/-! ## The actions -/

inductive HubAction where
  /-- `XADD` by a publisher -/
  | publish (t : Id) (e : Entry)
  /-- the critical section of `Subscribe`; `XLAST` may fail -/
  | subscribe (t : Id) (user lastID : String) (now : Time) (xlast : Bool)
  /-- `XRANGE` of the replay of `i`, which may fail -/
  | range (i : Nat) (ok : Bool)
  /-- the critical section of a `push` of that replay -/
  | replayPush (i : Nat)
  /-- its send -/
  | replaySend (i : Nat)
  /-- `XREAD` of loop `k`, unless its context is cancelled -/
  | read (k : Nat)
  /-- the critical section of `dispatch`, which visits the targets in some order -/
  | dispatch (k : Nat) (order : List Nat)
  /-- the critical section of the loop's `push` to the next of them -/
  | livePush (k : Nat)
  /-- its send -/
  | liveSend (k : Nat)
  /-- the loop's `Close` of a stalled subscription has returned -/
  | resume (k : Nat)
  /-- the critical section of `Close` -/
  | close (i : Nat)
  /-- its `close(s.ch)` -/
  | shut (i : Nat)
  /-- `Hub.Close` cancels the context -/
  | cancel
  /-- the reader takes an event -/
  | take (i : Nat)
deriving DecidableEq

variable {h₁ h₂ : Hub} {s : Subscription} {ts : TenantSub} {a : HubAction}

namespace Hub

variable (cfg : HubConfig) (h : Hub)

/-- Rewrite one subscription. -/
def setSub (i : Nat) (f : Subscription → Subscription) : Hub := { h with subs := h.subs.modify i f }

/-- Rewrite one `tenantSub`. -/
def setTenant (k : Nat) (f : TenantSub → TenantSub) : Hub :=
  { h with tenantSubs := h.tenantSubs.modify k f }

/-- A new `tenantSub`, whose loop starts at the end of the stream. -/
def addTenant (t : Id) : Hub :=
  { h with
    tenants := Function.update h.tenants t (some h.tenantSubs.length)
    tenantSubs := h.tenantSubs ++
      [⟨⟨t, [], fun _ => 0, false⟩, ⟨tailID (h.streams t), []⟩, .reading, false⟩] }

/-- The registration, unless the user or the tenant has too many streams. -/
def register (k : Nat) (t : Id) (user lastID : String) (now : Time) : Hub :=
  match h.tenantSubs[k]? with
  | none => h
  | some ts =>
    if ts.account.byUser user ≥ cfg.streamsPerUser || ts.account.conns.length ≥ cfg.streamsPerTenant
    then h
    else
      { h with
        subs := h.subs ++ [⟨t, user, (parseID lastID).getD zeroID, startReplay cfg now lastID, .fresh⟩]
        tenantSubs := h.tenantSubs.modify k fun ts =>
          { ts with account := ts.account.add h.subs.length user } }

/-- The critical section of the first `Close` of `i`. -/
def unregister (i : Nat) (s : Subscription) : Hub :=
  let h' := h.setSub i fun s => { s with port := { s.port with closed := true } }
  match h.tenants s.tenant with
  | none => h'
  | some k =>
    match h.tenantSubs[k]? with
    | none => h'
    | some ts =>
      let h'' := h'.setTenant k fun ts => { ts with account := ts.account.remove i s.user }
      if (ts.account.conns.erase i).isEmpty then
        { h'' with tenants := Function.update h.tenants s.tenant none }
      else h''

/-- The subscriptions an entry is for. -/
def targetsOf (ts : TenantSub) (e : Entry) : List Nat :=
  ts.account.conns.filter fun i => h.subs[i]?.any fun s => targets e.recipients s.user

/-- One action. An action whose turn it is not changes nothing. -/
def step : HubAction → Hub
  | .publish t e =>
    -- Valkey gives out increasing ids
    if less zeroID e.id && (h.streams t).all (fun o => less o.id e.id) then
      { h with streams := Function.update h.streams t (h.streams t ++ [e]) }
    else h
  | .subscribe t user lastID now xlast =>
    if h.done then h
    else match h.tenants t with
      | some k => h.register cfg k t user lastID now
      | none =>
        if xlast then (h.addTenant t).register cfg h.tenantSubs.length t user lastID now else h
  | .range i ok =>
    match h.subs[i]? with
    | some s =>
      if s.replay = .waiting then
        h.setSub i fun s => { s with
          replay := if ok then .pushing ((after s.start (h.streams s.tenant)).take cfg.maxLen)
            else .resetting "\x7b\"reason\":\"replay_unavailable\"\x7d" }
      else h
    | none => h
  | .replayPush i =>
    match h.subs[i]? with
    | some s =>
      match s.replay with
      | .pushing (e :: todo) =>
        if targets e.recipients s.user && s.port.passes e.event then
          h.setSub i fun s => { s with replay := .sending e todo, port := s.port.mark e.event }
        else h.setSub i fun s => { s with replay := .pushing todo }
      | .resetting reason =>
        if s.port.passes (resetEvent reason) then
          h.setSub i fun s => { s with
            replay := .sendingReset reason, port := s.port.mark (resetEvent reason) }
        else h.setSub i fun s => { s with replay := .pushing [] }
      | _ => h
    | none => h
  | .replaySend i =>
    -- the result of `push` is not looked at
    match h.subs[i]? with
    | some s =>
      match s.replay with
      | .sending e todo =>
        h.setSub i fun s => { s with replay := .pushing todo, port := s.port.send e.event }
      | .sendingReset reason =>
        h.setSub i fun s => { s with
          replay := .pushing [], port := s.port.send (resetEvent reason) }
      | _ => h
    | none => h
  | .read k =>
    match h.tenantSubs[k]? with
    | some ts =>
      if ts.phase = .reading && ts.loop.batch = [] && !ts.ended then
        if ts.account.cancelled || h.done then h.setTenant k fun ts => { ts with ended := true }
        else h.setTenant k fun ts => { ts with
          loop := { ts.loop with
            batch := (after ts.loop.last (h.streams ts.account.tenant)).take 100 } }
      else h
    | none => h
  | .dispatch k order =>
    match h.tenantSubs[k]? with
    | some ts =>
      match ts.phase, ts.loop.batch with
      | .reading, e :: batch =>
        if order.Perm (h.targetsOf ts e) then
          h.setTenant k fun ts => { ts with loop := ⟨e.id, batch⟩, phase := .pushing e order }
        else h
      | _, _ => h
    | none => h
  | .livePush k =>
    match h.tenantSubs[k]? with
    | some ts =>
      match ts.phase with
      | .pushing _ [] => h.setTenant k fun ts => { ts with phase := .reading }
      | .pushing e (i :: todo) =>
        match h.subs[i]? with
        | some s =>
          if s.port.passes e.event then
            (h.setSub i fun s => { s with port := s.port.mark e.event }).setTenant k
              fun ts => { ts with phase := .sending e i todo }
          else h.setTenant k fun ts => { ts with phase := .pushing e todo }
        | none => h
      | _ => h
    | none => h
  | .liveSend k =>
    match h.tenantSubs[k]? with
    | some ts =>
      match ts.phase with
      | .sending e i todo =>
        match h.subs[i]? with
        | some s =>
          (h.setSub i fun s => { s with port := s.port.send e.event }).setTenant k fun ts =>
            { ts with phase := if s.port.shut || s.port.hasRoom then .pushing e todo
                else .closing e i todo }
        | none => h
      | _ => h
    | none => h
  | .resume k =>
    match h.tenantSubs[k]? with
    | some ts =>
      match ts.phase with
      | .closing e i todo =>
        if h.subs[i]?.all fun s => s.port.shut then
          h.setTenant k fun ts => { ts with phase := .pushing e todo }
        else h
      | _ => h
    | none => h
  | .close i =>
    match h.subs[i]? with
    | some s => if s.port.closed then h else h.unregister i s
    | none => h
  | .shut i =>
    match h.subs[i]? with
    | some s =>
      if s.port.closed then
        h.setSub i fun s => { s with port := { s.port with shut := true } }
      else h
    | none => h
  | .cancel => { h with done := true }
  | .take i =>
    -- the reader has the subscription once `Subscribe` has returned
    match h.subs[i]? with
    | some s =>
      if s.replay = .pushing [] then h.setSub i fun s => { s with port := s.port.take } else h
    | none => h

/-! ## What an action does to one port -/

/-- Who pushes to a subscription: its own `Subscribe`, and the loops. -/
inductive Pusher where
  | replay
  | loop (k : Nat)
deriving DecidableEq

/-- The port of subscription `i`. -/
def port? (i : Nat) : Option Port := h.subs[i]?.map Subscription.port

/-- What the pusher has pushed to `i` and not sent yet. -/
def flight (i : Nat) : Pusher → Option Event
  | .replay => h.subs[i]?.bind fun s => s.replay.flying?
  | .loop k => h.tenantSubs[k]?.bind fun ts => ts.phase.flying? i

/-- The action is the critical section of a push to `i`. -/
def PushesTo (i : Nat) : HubAction → Prop
  | .replayPush j => j = i
  | .livePush k => ∃ ts e todo, h.tenantSubs[k]? = some ts ∧ ts.phase = .pushing e (i :: todo)
  | _ => False

/-- The port and what is under way to it are as they were. -/
def Spares (h h' : Hub) (i : Nat) : Prop :=
  h'.port? i = h.port? i ∧ ∀ q, h'.flight i q = h.flight i q

/-- What an action can do to the port of `i` and to the pushes under way to it. -/
inductive Effect (h : Hub) (i : Nat) (a : HubAction) (h' : Hub) : Prop where
  | spared (hsame : h.Spares h' i)
  | opened (hnone : h.port? i = none) (hport : h'.port? i = some .fresh)
      (hflight : ∀ q, h'.flight i q = h.flight i q)
  | passed (p : Port) (q : Pusher) (ev : Event) (hpush : h.PushesTo i a)
      (hbefore : h.port? i = some p) (hpass : p.passes ev = true)
      (hport : h'.port? i = some (p.mark ev)) (hflight : h'.flight i q = some ev)
      (hothers : ∀ q', q' ≠ q → h'.flight i q' = h.flight i q')
  | sent (p : Port) (q : Pusher) (ev : Event) (hbefore : h.port? i = some p)
      (hflight : h.flight i q = some ev) (hport : h'.port? i = some (p.send ev))
      (hnone : h'.flight i q = none) (hothers : ∀ q', q' ≠ q → h'.flight i q' = h.flight i q')
  | closed (p : Port) (hbefore : h.port? i = some p)
      (hport : h'.port? i = some { p with closed := true })
      (hflight : ∀ q, h'.flight i q = h.flight i q)
  | shut (p : Port) (hact : a = .shut i) (hbefore : h.port? i = some p)
      (hclosed : p.closed = true) (hport : h'.port? i = some { p with shut := true })
      (hflight : ∀ q, h'.flight i q = h.flight i q)
  | taken (p : Port) (hbefore : h.port? i = some p) (hport : h'.port? i = some p.take)
      (hflight : ∀ q, h'.flight i q = h.flight i q)

/-- A push to `i` has passed its critical section and has not sent yet. -/
def busy (i : Nat) : Bool :=
  (h.subs[i]?.any fun s => s.replay.flying?.isSome) ||
    h.tenantSubs.any fun ts => (ts.phase.flying? i).isSome

theorem flight_of_idle {i : Nat} (hidle : h.busy i = false) (q : Pusher) : h.flight i q = none := by
  obtain ⟨hreplay, hloops⟩ := Bool.or_eq_false_iff.1 hidle
  cases q with
  | replay =>
    cases hs : h.subs[i]? with
    | none => simp only [flight, hs, Option.bind_none]
    | some s => simpa [flight, hs] using hreplay
  | loop k =>
    cases hts : h.tenantSubs[k]? with
    | none => simp only [flight, hts, Option.bind_none]
    | some ts =>
      have hquiet := any_eq_false.1 hloops ts (mem_of_getElem? hts)
      simpa [flight, hts] using hquiet

section Frames

variable {h} {i j k : Nat} {f : Subscription → Subscription} {g : TenantSub → TenantSub}
  {todo : List Nat}

theorem spares_refl (h : Hub) (i : Nat) : h.Spares h i := ⟨rfl, fun _ => rfl⟩

theorem Spares.trans {h3 : Hub} (h12 : h₁.Spares h₂ i) (h23 : h₂.Spares h3 i) :
    h₁.Spares h3 i := ⟨h23.1.trans h12.1, fun q => (h23.2 q).trans (h12.2 q)⟩

theorem spares_of_eq (hsub : h₂.subs[i]? = h₁.subs[i]?) (htenants : h₂.tenantSubs = h₁.tenantSubs) :
    h₁.Spares h₂ i := by
  refine ⟨by simp only [port?, hsub], fun q => ?_⟩
  cases q with
  | replay => simp only [flight, hsub]
  | loop k => simp only [flight, htenants]

theorem spares_setSub_ne (hne : j ≠ i) : h.Spares (h.setSub j f) i :=
  spares_of_eq (by simp [setSub, hne]) rfl

theorem spares_addTenant (t : Id) : h.Spares (h.addTenant t) i := by
  refine ⟨rfl, fun q => ?_⟩
  cases q with
  | replay => rfl
  | loop k =>
    show ((h.tenantSubs ++ [_])[k]?).bind _ = _
    rw [getElem?_append]
    split
    · rfl
    rename_i hk
    have hnone : h.tenantSubs[k]? = none := getElem?_eq_none (Nat.le_of_not_lt hk)
    rw [flight, hnone]
    cases hlast : [TenantSub.mk ⟨t, [], fun _ => 0, false⟩ ⟨tailID (h.streams t), []⟩ .reading
        false][k - h.tenantSubs.length]? with
    | none => rfl
    | some ts =>
      obtain rfl := mem_singleton.1 (mem_of_getElem? hlast)
      rfl

section

variable (hs : h.subs[i]? = some s)
include hs

theorem subs_setSub_self : (h.setSub i f).subs[i]? = some (f s) := by
  simp [setSub, hs]

theorem port?_setSub_self :
    (h.setSub i f).port? i = some (f s).port := by
  rw [port?, subs_setSub_self hs]
  rfl

theorem port?_eq : h.port? i = some s.port := by
  rw [port?, hs]
  rfl

theorem flight_replay_eq : h.flight i .replay = s.replay.flying? := by
  rw [flight, hs]
  rfl

theorem flight_replay_setSub_self :
    (h.setSub i f).flight i .replay = (f s).replay.flying? :=
  flight_replay_eq (subs_setSub_self hs)

end

theorem flight_loop_eq (hts : h.tenantSubs[k]? = some ts) :
    h.flight i (.loop k) = ts.phase.flying? i := by
  rw [flight, hts]
  rfl

theorem flight_loop_setTenant_self (hts : h.tenantSubs[k]? = some ts) :
    (h.setTenant k g).flight i (.loop k) = (g ts).phase.flying? i := by
  refine flight_loop_eq ?_
  simp [setTenant, hts]

theorem flight_setTenant_ne {q : Pusher} (hq : q ≠ .loop k) :
    (h.setTenant k g).flight i q = h.flight i q := by
  cases q with
  | replay => rfl
  | loop k' =>
    have hne : k ≠ k' := fun heq => hq (heq ▸ rfl)
    simp [flight, setTenant, hne]

theorem flight_setSub_ne {q : Pusher} (hq : q ≠ .replay) :
    (h.setSub j f).flight i q = h.flight i q := by
  cases q with
  | replay => exact absurd rfl hq
  | loop k => rfl

theorem flight_setSub_self (hs : h.subs[i]? = some s)
    (hfly : (f s).replay.flying? = s.replay.flying?) (q : Pusher) :
    (h.setSub i f).flight i q = h.flight i q := by
  cases q with
  | replay => rw [flight_replay_setSub_self hs, hfly, flight_replay_eq hs]
  | loop k => rfl

theorem spares_setSub (hs : h.subs[j]? = some s) (hport : (f s).port = s.port)
    (hfly : (f s).replay.flying? = s.replay.flying?) : h.Spares (h.setSub j f) i := by
  by_cases hne : j = i
  · subst hne
    refine ⟨?_, flight_setSub_self hs hfly⟩
    rw [port?_setSub_self hs, hport, port?_eq hs]
  · exact spares_setSub_ne hne

theorem spares_setTenant (hts : h.tenantSubs[k]? = some ts)
    (hfly : (g ts).phase.flying? i = ts.phase.flying? i) : h.Spares (h.setTenant k g) i := by
  refine ⟨rfl, fun q => ?_⟩
  by_cases hq : q = .loop k
  · rw [hq, flight_loop_setTenant_self hts, hfly, flight_loop_eq hts]
  · exact flight_setTenant_ne hq

theorem effect_setSub (hs : h.subs[j]? = some s) (hfly : (f s).replay.flying? = s.replay.flying?)
    (he : j = i → h.port? i = some s.port → (h.setSub j f).port? i = some (f s).port →
      (∀ q, (h.setSub j f).flight i q = h.flight i q) → Effect h i a (h.setSub j f)) :
    Effect h i a (h.setSub j f) := by
  by_cases hj : j = i
  · subst hj
    exact he rfl (port?_eq hs) (port?_setSub_self hs) (flight_setSub_self hs hfly)
  · exact .spared (spares_setSub_ne hj)

theorem effect_replay_passed {ev : Event} {r : Replay} (hs : h.subs[j]? = some s)
    (hpass : s.port.passes ev = true) (hr : r.flying? = some ev)
    (hf : f s = { s with replay := r, port := s.port.mark ev }) :
    Effect h i (.replayPush j) (h.setSub j f) := by
  by_cases hj : j = i
  · subst hj
    refine .passed s.port .replay ev rfl (port?_eq hs) hpass ?_ ?_ fun q hq => flight_setSub_ne hq
    · rw [port?_setSub_self hs, hf]
    · rw [flight_replay_setSub_self hs, hf]
      exact hr
  · exact .spared (spares_setSub_ne hj)

theorem effect_replay_sent {ev : Event} {r : Replay} (hs : h.subs[j]? = some s)
    (hev : s.replay.flying? = some ev) (hr : r.flying? = none)
    (hf : f s = { s with replay := r, port := s.port.send ev }) : Effect h i a (h.setSub j f) := by
  by_cases hj : j = i
  · subst hj
    refine .sent s.port .replay ev (port?_eq hs) ?_ ?_ ?_ fun q hq => flight_setSub_ne hq
    · rw [flight_replay_eq hs, hev]
    · rw [port?_setSub_self hs, hf]
    · rw [flight_replay_setSub_self hs, hf]
      exact hr
  · exact .spared (spares_setSub_ne hj)

theorem startReplay_flying? (cfg : HubConfig) (now : Time) (lastID : String) :
    (startReplay cfg now lastID).flying? = none := by
  unfold startReplay
  split
  · rfl
  split
  · rfl
  · split <;> rfl

theorem Effect.within {h0 : Hub} (hs : h.Spares h0 i) (ha : h0.PushesTo i a → h.PushesTo i a)
    (he : Effect h0 i a h₁) (hs' : h₁.Spares h₂ i) : Effect h i a h₂ := by
  have hport : ∀ {p}, h0.port? i = p → h.port? i = p := hs.1.symm.trans
  have hport' : ∀ {p}, h₁.port? i = p → h₂.port? i = p := hs'.1.trans
  have hkept : ∀ {q}, h₁.flight i q = h0.flight i q → h₂.flight i q = h.flight i q :=
    fun hq => (hs'.2 _).trans (hq.trans (hs.2 _))
  cases he with
  | spared hsame => exact .spared ((hs.trans hsame).trans hs')
  | opened hnone hopen hflight => exact .opened (hport hnone) (hport' hopen) fun q => hkept (hflight q)
  | passed p q ev hpush hbefore hpass hafter hflight hothers =>
    exact .passed p q ev (ha hpush) (hport hbefore) hpass (hport' hafter) ((hs'.2 q).trans hflight)
      fun q' hq => hkept (hothers q' hq)
  | sent p q ev hbefore hflight hafter hnone hothers =>
    exact .sent p q ev (hport hbefore) ((hs.2 q).symm.trans hflight) (hport' hafter)
      ((hs'.2 q).trans hnone) fun q' hq => hkept (hothers q' hq)
  | closed p hbefore hafter hflight =>
    exact .closed p (hport hbefore) (hport' hafter) fun q => hkept (hflight q)
  | shut p hact hbefore hclosed hafter hflight =>
    exact .shut p hact (hport hbefore) hclosed (hport' hafter) fun q => hkept (hflight q)
  | taken p hbefore hafter hflight =>
    exact .taken p (hport hbefore) (hport' hafter) fun q => hkept (hflight q)

theorem Effect.before (he : Effect h i a h₁) (hs : h₁.Spares h₂ i) : Effect h i a h₂ :=
  .within (spares_refl h i) id he hs

theorem effect_append (hport : s.port = .fresh) (hfly : s.replay.flying? = none) :
    Effect h i a { h with subs := h.subs ++ [s] } := by
  by_cases hi : i = h.subs.length
  · subst hi
    refine .opened (by simp [port?]) (by simp [port?, hport]) fun q => ?_
    cases q with
    | replay => simp [flight, hfly]
    | loop k => rfl
  refine .spared (spares_of_eq ?_ rfl)
  rcases Nat.lt_or_gt_of_ne hi with hlt | hgt
  · exact getElem?_append_left hlt
  · rw [getElem?_eq_none (by simp; omega), getElem?_eq_none (by omega)]

theorem effect_register (cfg : HubConfig) (t : Id) (user lastID : String) (now : Time)
    (a : HubAction) : Effect h i a (h.register cfg k t user lastID now) := by
  unfold register
  split
  · exact .spared (spares_refl h i)
  rename_i ts hts
  split
  · exact .spared (spares_refl h i)
  have hopen : Effect h i a { h with subs := h.subs ++
      [⟨t, user, (parseID lastID).getD zeroID, startReplay cfg now lastID, .fresh⟩] } :=
    effect_append rfl (startReplay_flying? cfg now lastID)
  exact hopen.before (spares_setTenant hts rfl)

theorem effect_unregister (hs : h.subs[j]? = some s) (a : HubAction) :
    Effect h i a (h.unregister j s) := by
  have hflag : Effect h i a
      (h.setSub j fun s => { s with port := { s.port with closed := true } }) :=
    effect_setSub hs rfl fun _ => .closed s.port
  unfold unregister
  dsimp only
  split
  · exact hflag
  split
  · exact hflag
  rename_i k _ _ ts hts
  have hleave := hflag.before (spares_setTenant (k := k)
    (g := fun ts => { ts with account := ts.account.remove j s.user }) hts rfl)
  split
  · exact hleave.before (spares_of_eq rfl rfl)
  · exact hleave

theorem effect_live_passed {e : Entry} (hts : h.tenantSubs[k]? = some ts)
    (hphase : ts.phase = .pushing e (j :: todo)) (hs : h.subs[j]? = some s)
    (hpass : s.port.passes e.event = true) :
    Effect h i (.livePush k) ((h.setSub j fun s => { s with port := s.port.mark e.event }).setTenant k
      fun ts => { ts with phase := .sending e j todo }) := by
  by_cases hj : j = i
  · subst hj
    refine .passed s.port (.loop k) e.event ⟨ts, e, todo, hts, hphase⟩ (port?_eq hs) hpass
      (port?_setSub_self hs) ?_ fun q hq => ?_
    · rw [flight_loop_setTenant_self (h := h.setSub j _) hts]
      simp [Phase.flying?]
    · exact (flight_setTenant_ne hq).trans (flight_setSub_self hs rfl q)
  · refine .spared ((spares_setSub_ne hj).trans (spares_setTenant hts ?_))
    simp [Phase.flying?, hphase, hj]

theorem effect_live_sent {e : Entry} {next : Phase} (hts : h.tenantSubs[k]? = some ts)
    (hphase : ts.phase = .sending e j todo) (hs : h.subs[j]? = some s)
    (hnext : ∀ i, next.flying? i = none) :
    Effect h i a ((h.setSub j fun s => { s with port := s.port.send e.event }).setTenant k
      fun ts => { ts with phase := next }) := by
  by_cases hj : j = i
  · subst hj
    refine .sent s.port (.loop k) e.event (port?_eq hs) ?_ (port?_setSub_self hs) ?_
      fun q hq => ?_
    · rw [flight_loop_eq hts, hphase]
      simp [Phase.flying?]
    · rw [flight_loop_setTenant_self (h := h.setSub j _) hts]
      exact hnext j
    · exact (flight_setTenant_ne hq).trans (flight_setSub_self hs rfl q)
  refine .spared ((spares_setSub_ne hj).trans (spares_setTenant hts ?_))
  show next.flying? i = ts.phase.flying? i
  rw [hnext, hphase]
  simp [Phase.flying?, hj]

end Frames

theorem effect_step (i : Nat) (a : HubAction) : Effect h i a (h.step cfg a) := by
  have hsame : ∀ a, Effect h i a h := fun a => .spared (spares_refl h i)
  cases a with
  | publish t e =>
    simp only [step]
    split
    · exact .spared (spares_of_eq rfl rfl)
    · exact hsame _
  | subscribe t user lastID now xlast =>
    simp only [step]
    split
    · exact hsame _
    split
    · exact effect_register cfg t user lastID now _
    split
    · exact .within (spares_addTenant t) id (effect_register cfg t user lastID now _)
        (spares_refl _ i)
    · exact hsame _
  | range j ok =>
    simp only [step]
    split
    · next s hs =>
      split
      · next hwait => exact .spared (spares_setSub hs rfl (by rw [hwait]; cases ok <;> rfl))
      · exact hsame _
    · exact hsame _
  | replayPush j =>
    simp only [step]
    split
    · next s hs =>
      split
      · next e todo hr =>
        split
        · next hpass =>
          exact effect_replay_passed hs (Bool.and_eq_true_iff.1 hpass).2 (r := .sending e todo) rfl rfl
        · exact .spared (spares_setSub hs rfl (by rw [hr]; rfl))
      · next reason hr =>
        split
        · next hpass => exact effect_replay_passed hs hpass (r := .sendingReset reason) rfl rfl
        · exact .spared (spares_setSub hs rfl (by rw [hr]; rfl))
      · exact hsame _
    · exact hsame _
  | replaySend j =>
    simp only [step]
    split
    · next s hs =>
      split
      · next e todo hr => exact effect_replay_sent hs (by rw [hr]; rfl) (r := .pushing todo) rfl rfl
      · next reason hr => exact effect_replay_sent hs (by rw [hr]; rfl) (r := .pushing []) rfl rfl
      · exact hsame _
    · exact hsame _
  | read k =>
    simp only [step]
    split
    · next ts hts =>
      split
      · split
        · exact .spared (spares_setTenant hts rfl)
        · exact .spared (spares_setTenant hts rfl)
      · exact hsame _
    · exact hsame _
  | dispatch k order =>
    simp only [step]
    split
    · next ts hts =>
      split
      · next e batch hphase hbatch =>
        split
        · exact .spared (spares_setTenant hts (by rw [hphase]; rfl))
        · exact hsame _
      · exact hsame _
    · exact hsame _
  | livePush k =>
    simp only [step]
    split
    · next ts hts =>
      split
      · next e hphase => exact .spared (spares_setTenant hts (by rw [hphase]; rfl))
      · next e j todo hphase =>
        split
        · next s hs =>
          split
          · next hpass => exact effect_live_passed hts hphase hs hpass
          · exact .spared (spares_setTenant hts (by rw [hphase]; rfl))
        · exact hsame _
      · exact hsame _
    · exact hsame _
  | liveSend k =>
    simp only [step]
    split
    · next ts hts =>
      split
      · next e j todo hphase =>
        split
        · refine effect_live_sent hts hphase ‹_› fun i => ?_
          split <;> rfl
        · exact hsame _
      · exact hsame _
    · exact hsame _
  | resume k =>
    simp only [step]
    split
    · next ts hts =>
      split
      · next e j todo hphase =>
        split
        · exact .spared (spares_setTenant hts (by rw [hphase]; rfl))
        · exact hsame _
      · exact hsame _
    · exact hsame _
  | close j =>
    simp only [step]
    split
    · next s hs =>
      split
      · exact hsame _
      · exact effect_unregister hs _
    · exact hsame _
  | shut j =>
    simp only [step]
    split
    · next s hs =>
      split
      · next hclosed =>
        refine effect_setSub hs rfl fun hj hbefore hport hflight => ?_
        exact .shut s.port (by rw [hj]) hbefore hclosed hport hflight
      · exact hsame _
    · exact hsame _
  | cancel => exact .spared (spares_of_eq rfl rfl)
  | take j =>
    simp only [step]
    split
    · next s hs =>
      split
      · exact effect_setSub hs rfl fun _ => .taken s.port
      · exact hsame _
    · exact hsame _

end Hub

end Lcm.Stream
