import Lcm.Stream.Publish

/-!
# The agent and the lifecycle events

`watchLoop` of the SDK's agent keeps a stream of `AgentServer.Watch` open and pokes the renewal
loop on the updates that concern its workload. An update carries the type of the event as it was
published. The service publishes `certificate.issued` where the agent waits for `issued`, and the
short types are reserved, so no module can publish them either.

* `never_pokes`: through every interleaving of publishers, hub and reconnects, no event that
  reaches the agent has a type it waits for.
* `reacts_iff`: so each event leads to a poke just when there is none.
-/

namespace Lcm.Watch

open Lcm.Stream List

/-- `CertificateUpdate`, as far as the handler reads it. -/
structure Update where
  type : String
  spiffeID : String

/-- What `AgentServer.Watch` sends for an event; `spiffeOf` reads the field of a payload. -/
def update (spiffeOf : String → Option String) (ev : Event) : Update :=
  ⟨ev.type, (spiffeOf ev.data).getD ""⟩

/-- The types the agent waits for. -/
def pokeTypes : List String := ["renewed", "revoked", "issued"]

/-- The handler of `watchLoop`, for the workload `own`. -/
def pokes (own : String) (u : Update) : Bool :=
  if u.spiffeID ≠ "" ∧ own ≠ "" ∧ u.spiffeID ≠ own then false else pokeTypes.contains u.type

/-- The tenant's stream, and the subscription of the agent while it is connected. -/
structure State where
  stream : List Entry
  sub : Option Sub

inductive Act where
  /-- `hubPublisher.Publish` -/
  | lifecycle (xadd : Except PublishError StreamID) (eventType certificateID spiffeID : String)
      (notAfter : Option String)
  /-- `hubPublisher.PublishFailed` -/
  | failed (xadd : Except PublishError StreamID) (detail : List (String × String))
  /-- `EventsServer.Publish` -/
  | publish (xadd : Except PublishError StreamID) (peer : Option String) (req : PublishRequest)
  /-- `WatchTenant` connects; a loop of the tenant that runs has read `n` entries after an id -/
  | connect (loop : Option (StreamID × Nat)) (userStreams tenantStreams : Nat) (now : Time)
  /-- an action of the hub, or of the reader -/
  | hub (a : Action)
  | disconnect

/-- The stream takes the entry: Valkey gives out increasing ids. -/
def State.takes (s : State) (e : Entry) : Bool :=
  less zeroID e.id && s.stream.all fun o => less o.id e.id

section Model

variable (J : Json) (cfg : HubConfig) (user : String)

/-- The entry an act stores in the stream. -/
def State.stored (s : State) (a : Act) : Option Entry :=
  Option.filter s.takes <| match a with
    | .lifecycle xadd eventType certificateID spiffeID notAfter =>
      (publishLifecycle J xadd eventType certificateID spiffeID notAfter).toOption
    | .failed xadd detail => (publishFailed J xadd detail).toOption
    | .publish xadd peer req => (Stream.publish J xadd peer req).toOption
    | _ => none

/-- An action on the subscription. Its last event id is the empty one: `watchLoop` never sets
it, so there is nothing to replay. -/
def State.onSub (s : State) (a : Action) : Option Sub :=
  s.sub.map fun sub => sub.step cfg user zeroID a

def State.step (s : State) (a : Act) : State :=
  match s.stored J a, a with
  | some e, _ => ⟨s.stream ++ [e], s.onSub cfg user (.publish e)⟩
  | none, .connect loop userStreams tenantStreams now =>
    ⟨s.stream, subscribe cfg s.stream
      (loop.map fun l => ⟨l.1, (after l.1 s.stream).take l.2⟩) userStreams tenantStreams now ""⟩
  -- entries come from the publishers
  | none, .hub (.publish _) => s
  | none, .hub a => ⟨s.stream, s.onSub cfg user a⟩
  | none, .disconnect => ⟨s.stream, none⟩
  | none, _ => s

/-- The state before an act of an endless run. -/
def stateAt (run : Nat → Act) : Nat → State
  | 0 => ⟨[], none⟩
  | n + 1 => (stateAt run n).step J cfg user (run n)

end Model

/-- The event that the reader takes with an act. -/
def State.received (s : State) : Act → Option Event
  | .hub .take => s.sub.bind fun sub => if sub.returned then sub.queued[sub.taken]? else none
  | _ => none

/-! ## The types in a stream -/

/-- The entries in the hands of the loop. -/
def inHand : Live → List Entry
  | .idle => []
  | .holding e | .sending e | .stalled e => [e]

/-- A subscription without a replay, all of whose entries and events have a type that the agent
does not wait for. -/
structure Unheard (s : Sub) : Prop where
  stream : ∀ e ∈ s.stream, e.type ∉ pokeTypes
  batch : ∀ e ∈ s.loop.batch, e.type ∉ pokeTypes
  live : ∀ e ∈ inHand s.live, e.type ∉ pokeTypes
  replay : s.replay = .pushing []
  queued : ∀ ev ∈ s.queued, ev.type ∉ pokeTypes

variable {J : Json} {cfg : HubConfig} {user : String}

variable {stream : List Entry} {s : State}

theorem mem_of_mem_take_after {id : StreamID} {n : Nat} {e : Entry}
    (h : e ∈ (after id stream).take n) : e ∈ stream :=
  (mem_filter.1 (mem_of_mem_take h)).1

theorem forall_mem_concat {α : Type} {p : α → Prop} {l : List α} {a : α} (hl : ∀ x ∈ l, p x)
    (ha : p a) : ∀ x ∈ l ++ [a], p x := by
  intro x hx
  rcases mem_append.1 hx with hx | hx
  · exact hl x hx
  · rwa [mem_singleton.1 hx]

theorem Unheard.step {s : Sub} (h : Unheard s) (lastID : StreamID) (a : Action)
    (ha : ∀ e, a = .publish e → e.type ∉ pokeTypes) : Unheard (s.step cfg user lastID a) := by
  have hidle : ∀ e ∈ inHand .idle, e.type ∉ pokeTypes := fun e he => by cases he
  cases a with
  | publish e =>
    simp only [Sub.step]
    split
    · exact { h with stream := forall_mem_concat h.stream (ha e rfl) }
    · exact h
  | range | replayPush | replaySend =>
    -- there is no replay
    simp only [Sub.step, h.replay]
    exact h
  | read =>
    simp only [Sub.step]
    split
    · exact { h with batch := fun e he => h.stream e (mem_of_mem_take_after he) }
    · exact h
  | dispatch =>
    simp only [Sub.step]
    split
    · next e batch _ hb =>
      have hbatch := h.batch
      rw [hb] at hbatch
      refine { h with batch := fun o ho => hbatch o (mem_cons_of_mem e ho), live := ?_ }
      intro o ho
      dsimp only at ho
      split at ho
      · rw [mem_singleton.1 ho]
        exact hbatch e mem_cons_self
      · cases ho
    · exact h
  | livePush =>
    simp only [Sub.step]
    split
    · next e hlive =>
      have hhand := h.live
      rw [hlive] at hhand
      split
      · exact { h with live := hidle }
      · exact { h with live := hhand }
    · exact h
  | liveSend =>
    simp only [Sub.step]
    split
    · next e hlive =>
      have hhand := h.live
      rw [hlive] at hhand
      have he : e.event.type ∉ pokeTypes := hhand e mem_cons_self
      split
      · exact { h with live := hidle }
      split
      · exact { h with live := hidle, queued := forall_mem_concat h.queued he }
      · exact { h with live := hhand }
    · exact h
  | closeStalled =>
    simp only [Sub.step]
    split
    · exact { h with live := hidle }
    · exact h
  | take =>
    simp only [Sub.step]
    split
    · exact { h with }
    · exact h
  | close => exact { h with }

/-- The types of the service begin with `certificate.`, and modules have none of the reserved. -/
theorem type_of_stored {a : Act} {e : Entry} (h : s.stored J a = some e) : e.type ∉ pokeTypes := by
  have hown : ∀ typ, LikeLifecycle typ → typ ∉ pokeTypes := by
    intro typ hlike hmem
    have hunlike : ∀ t ∈ pokeTypes, ¬ LikeLifecycle t := by decide
    exact hunlike typ hmem hlike
  have hok : ∀ {r : Except PublishError Entry}, r.toOption = some e → r = .ok e := by
    intro r hr
    cases r with
    | error => cases hr
    | ok o => rw [Option.some.inj hr]
  have hpub := (Option.filter_eq_some_iff.1 h).1
  cases a with
  | lifecycle xadd eventType =>
    rw [(publishID_ok (hok hpub)).2.2.2]
    exact hown _ (likeLifecycle_append eventType)
  | failed =>
    rw [(publishID_ok (hok hpub)).2.2.2]
    decide
  | publish xadd peer req =>
    have hpub := hok hpub
    unfold Stream.publish at hpub
    split at hpub
    · cases hpub
    obtain ⟨hval, -, -, htype⟩ := publishID_ok hpub
    have hreserved : ∀ t ∈ pokeTypes, t ∈ reserved := by decide
    rw [htype]
    exact fun hmem => (validateType_ok hval).2 rfl (hreserved _ hmem)
  | connect | hub | disconnect => cases hpub

/-- What the tenant's stream and the agent's subscription hold. -/
structure State.Unheard (s : State) : Prop where
  stream : ∀ e ∈ s.stream, e.type ∉ pokeTypes
  sub : ∀ sub ∈ s.sub, Watch.Unheard sub

theorem unheard_of_none (h : ∀ e ∈ stream, e.type ∉ pokeTypes) : State.Unheard ⟨stream, none⟩ :=
  ⟨h, fun sub hsub => absurd hsub (Option.not_mem_none sub)⟩

theorem State.Unheard.onSub (h : s.Unheard) (a : Action)
    (ha : ∀ e, a = .publish e → e.type ∉ pokeTypes) :
    ∀ sub ∈ s.onSub cfg user a, Watch.Unheard sub := by
  intro sub' hsub
  obtain ⟨sub, hmem, rfl⟩ := Option.map_eq_some_iff.1 hsub
  exact (h.sub sub hmem).step zeroID a ha

theorem unheard_subscribe (h : ∀ e ∈ stream, e.type ∉ pokeTypes) (loop : Option (StreamID × Nat))
    (m n : Nat) (now : Time) :
    ∀ sub ∈ subscribe cfg stream (loop.map fun l => ⟨l.1, (after l.1 stream).take l.2⟩) m n now "",
      Watch.Unheard sub := by
  intro sub hsub
  unfold subscribe at hsub
  split at hsub
  · cases hsub
  obtain rfl := Option.some.inj hsub
  refine ⟨h, fun e he => ?_, fun e he => (by cases he), rfl, fun ev hev => by cases hev⟩
  cases loop with
  | none => cases he
  | some l => exact h e (mem_of_mem_take_after he)

theorem State.Unheard.step (h : s.Unheard) (a : Act) : (s.step J cfg user a).Unheard := by
  unfold State.step
  split
  · next e hstored =>
    have he := type_of_stored hstored
    exact ⟨forall_mem_concat h.stream he, h.onSub _ fun o ho => by cases ho; exact he⟩
  · exact ⟨h.stream, unheard_subscribe h.stream _ _ _ _⟩
  · exact h
  · next hne _ => exact ⟨h.stream, h.onSub _ fun e he => (hne e he).elim⟩
  · exact unheard_of_none h.stream
  · exact h

theorem unheard_stateAt (run : Nat → Act) (n : Nat) : (stateAt J cfg user run n).Unheard := by
  induction n with
  | zero => exact unheard_of_none fun e he => by cases he
  | succ n ih => exact ih.step (run n)

/-! ## Reactions -/

section Reactions

variable (J) (cfg) (user) (spiffeOf : String → Option String) (own : String) (run : Nat → Act)

/-- With its `n`-th act the run publishes an event of the agent's certificate. -/
def Publishes (n : Nat) (e : Entry) : Prop :=
  (stateAt J cfg user run n).stored J (run n) = some e ∧
    ∃ xadd, ∃ eventType ∈ pokeTypes, ∃ certificateID notAfter,
      run n = .lifecycle xadd eventType certificateID own notAfter

/-- With its `n`-th act the run hands the agent an event. -/
def Hands (n : Nat) (ev : Event) : Prop :=
  (stateAt J cfg user run n).received (run n) = some ev

/-- Each event of the agent's certificate leads to a poke. -/
def Reacts : Prop :=
  ∀ n e, Publishes J cfg user own run n e →
    ∃ m > n, ∃ ev, Hands J cfg user run m ev ∧ pokes own (update spiffeOf ev) = true

/-- Each event of the agent's certificate is handed to the agent. -/
def Delivers : Prop :=
  ∀ n e, Publishes J cfg user own run n e → ∃ m > n, Hands J cfg user run m e.event

end Reactions

theorem never_pokes {run : Nat → Act} {n : Nat} {ev : Event} (h : Hands J cfg user run n ev)
    (spiffeOf : String → Option String) (own : String) :
    pokes own (update spiffeOf ev) = false := by
  have htype : ev.type ∉ pokeTypes := by
    unfold Hands State.received at h
    split at h
    · obtain ⟨sub, hsub, hev⟩ := Option.bind_eq_some_iff.1 h
      split at hev
      · exact ((unheard_stateAt run n).sub sub hsub).queued ev (mem_of_getElem? hev)
      · cases hev
    · cases h
  unfold pokes
  split
  · rfl
  · simpa [update] using htype

/-- The agent reacts to each event of its certificate just when the run publishes none. -/
theorem reacts_iff (J : Json) (cfg : HubConfig) (user : String)
    (spiffeOf : String → Option String) (own : String) (run : Nat → Act) :
    Reacts J cfg user spiffeOf own run ↔ ∀ n e, ¬ Publishes J cfg user own run n e := by
  constructor
  · intro hreacts n e hpub
    obtain ⟨m, -, ev, hhands, hpokes⟩ := hreacts n e hpub
    rw [never_pokes hhands] at hpokes
    cases hpokes
  · intro hnone n e hpub
    exact absurd hpub (hnone n e)

namespace Sample

/-- The agent connects, its certificate is issued, and the event is taken through the hub. -/
def watched : Nat → Act
  | 0 => .connect none 0 0 0
  | 1 => .lifecycle (.ok ⟨7, 1⟩) "issued" "4" "spiffe://td/a" none
  | 2 => .hub .read
  | 3 => .hub .dispatch
  | 4 => .hub .livePush
  | 5 => .hub .liveSend
  | _ => .hub .take

def config : HubConfig := ⟨300 * second, 5, 2000, 10000⟩

end Sample

open Lcm.Watch.Sample

/-- An event that is handed to the agent, which never disconnects, leads to no poke. -/
theorem unheeded :
    ¬ ∀ (J : Json) (cfg : HubConfig) (user : String) (spiffeOf : String → Option String)
      (own : String) (run : Nat → Act), Delivers J cfg user own run →
        Reacts J cfg user spiffeOf own run := by
  intro h
  have hissued : Publishes Stream.Sample.json config "agent" "spiffe://td/a" watched 1
      ⟨⟨7, 1⟩, "*", "certificate.issued", "\x7b\x7d"⟩ :=
    ⟨by decide, .ok ⟨7, 1⟩, "issued", by decide, "4", none, rfl⟩
  have hdelivers : Delivers Stream.Sample.json config "agent" "spiffe://td/a"
      watched := by
    rintro n e ⟨hstored, xadd, eventType, _, certificateID, notAfter, hact⟩
    have hn : n = 1 := by
      -- no other act publishes
      unfold watched at hact
      split at hact <;> first | rfl | cases hact
    subst hn
    obtain rfl := Option.some.inj (hissued.1.symm.trans hstored)
    exact ⟨6, by decide, show _ = _ by decide⟩
  obtain ⟨m, -, ev, hhands, hpokes⟩ := h _ _ _ (fun _ => none) _ _ hdelivers 1 _ hissued
  rw [never_pokes hhands] at hpokes
  cases hpokes

end Lcm.Watch
