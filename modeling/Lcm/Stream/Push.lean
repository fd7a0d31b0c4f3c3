import Lcm.Stream.Fanout

/-!
# Pushing to one channel

`push` raises the high-water mark of a subscription under its lock and sends the event after it
has released the lock. Between the two, another push may pass and send first, and `Close` may
close the channel.

* `received_in_order`: in every run in which a push enters its critical section only when no
  other push to that subscription is between its critical section and its send, the ids a reader
  gets increase.
* `received_out_of_order`: without that they need not.
* `never_sends_closed`: in every run in which a channel is closed only when no push to it is
  between its critical section and its send, no push sends on a closed channel.
* `sends_closed`: without that one may.
-/

namespace Lcm.Stream

open Conc Machine

/-! ## Order -/

def idsOf (evs : List Event) : List StreamID := evs.filterMap Event.id

@[simp] theorem idsOf_append (evs evs' : List Event) : idsOf (evs ++ evs') = idsOf evs ++ idsOf evs' :=
  List.filterMap_append

theorem idsOf_singleton (ev : Event) : idsOf [ev] = ev.id.toList := by
  cases hid : ev.id <;> simp [idsOf, hid]

/-- What the reader has got from the channel. -/
def Port.received (p : Port) : List Event := p.queued.take p.taken

/-- The events that were queued to a port come in order, none above the high-water mark. -/
structure Port.Sorted (p : Port) : Prop where
  increasing : (idsOf p.queued).Pairwise fun a b => less a b = true
  marked : ∀ id ∈ idsOf p.queued, ∃ l, p.last = some l ∧ (id = l ∨ less id l = true)

/-- The event is the one the mark was last raised for, and is not queued. -/
def Port.Awaits (p : Port) (ev : Event) : Prop :=
  ∀ id, ev.id = some id → p.last = some id ∧ ∀ o ∈ idsOf p.queued, less o id = true

namespace Port

variable {p : Port} {ev : Event}

theorem Sorted.awaits_mark (hp : p.Sorted) (hpass : p.passes ev = true) : (p.mark ev).Awaits ev := by
  intro id hid
  refine ⟨by simp [mark, hid], fun o ho => ?_⟩
  obtain ⟨l, hl, hle⟩ := hp.marked o ho
  have habove : less l id = true := by
    have hall := (Bool.and_eq_true_iff.1 hpass).2
    simpa [hid, hl] using hall
  rcases hle with rfl | hlt
  · exact habove
  · exact less_trans hlt habove

theorem Sorted.mark (hp : p.Sorted) (hpass : p.passes ev = true) : (p.mark ev).Sorted := by
  refine ⟨hp.increasing, fun o ho => ?_⟩
  cases hid : ev.id with
  | none =>
    obtain ⟨l, hl, hle⟩ := hp.marked o ho
    exact ⟨l, by simp [Port.mark, hid, hl], hle⟩
  | some id =>
    obtain ⟨hlast, habove⟩ := hp.awaits_mark hpass id hid
    exact ⟨id, hlast, .inr (habove o ho)⟩

theorem Sorted.send (hp : p.Sorted) (hev : p.Awaits ev) : (p.send ev).Sorted := by
  unfold Port.send
  split
  · exact ⟨hp.increasing, hp.marked⟩
  split
  · constructor
    · rw [idsOf_append, idsOf_singleton]
      refine List.pairwise_append.2 ⟨hp.increasing, ?_, fun o ho id hid => ?_⟩
      · cases ev.id <;> simp
      · exact (hev id (Option.mem_toList.1 hid)).2 o ho
    intro o ho
    rw [idsOf_append, idsOf_singleton] at ho
    rcases List.mem_append.1 ho with ho | ho
    · exact hp.marked o ho
    · exact ⟨o, (hev o (Option.mem_toList.1 ho)).1, .inl rfl⟩
  · exact hp

theorem queued_take (p : Port) : p.take.queued = p.queued := by
  unfold take
  split <;> rfl

theorem last_take (p : Port) : p.take.last = p.last := by
  unfold take
  split <;> rfl

theorem Sorted.received (hp : p.Sorted) :
    (idsOf p.received).Pairwise fun a b => less a b = true :=
  hp.increasing.sublist ((List.take_sublist p.taken p.queued).filterMap Event.id)

end Port

variable {p : Port}

namespace Hub

variable {cfg : HubConfig} {h : Hub} {i : Nat} {a : HubAction}

/-- The condition on an action: a push enters its critical section only when no other push to the
subscription is under way. -/
def OneAtATime (h : Hub) : HubAction → Prop
  | .replayPush i => h.busy i = false
  | .livePush k => ∀ ts ∈ h.tenantSubs[k]?, ∀ i ∈ ts.phase.next?, h.busy i = false
  | _ => True

instance (h : Hub) (a : HubAction) : Decidable (h.OneAtATime a) := by
  cases a <;> unfold OneAtATime <;> infer_instance

theorem OneAtATime.idle (hone : h.OneAtATime a) (hpush : h.PushesTo i a) : h.busy i = false := by
  cases a with
  | replayPush j =>
    obtain rfl : j = i := hpush
    exact hone
  | livePush k =>
    obtain ⟨ts, e, todo, hts, hphase⟩ := hpush
    refine hone ts hts i ?_
    rw [hphase]
    rfl
  | _ => exact hpush.elim

/-- What holds of a subscription while its pushes come one at a time. -/
structure InOrder (h : Hub) (i : Nat) : Prop where
  absent : h.port? i = none → ∀ q, h.flight i q = none
  alone : ∀ q q', h.flight i q ≠ none → h.flight i q' ≠ none → q = q'
  sorted : ∀ p, h.port? i = some p → p.Sorted
  awaits : ∀ p q ev, h.port? i = some p → h.flight i q = some ev → p.Awaits ev

theorem InOrder.congr {h' : Hub} {p' : Port} (hi : h.InOrder i) (hbefore : h.port? i = some p)
    (hport : h'.port? i = some p') (hflight : ∀ q, h'.flight i q = h.flight i q)
    (hlast : p'.last = p.last) (hqueued : p'.queued = p.queued) : h'.InOrder i where
  absent hnone := by rw [hport] at hnone; cases hnone
  alone q q' := by rw [hflight, hflight]; exact hi.alone q q'
  sorted r hr := by
    obtain rfl := Option.some.inj (hport.symm.trans hr)
    have hp := hi.sorted p hbefore
    exact ⟨hqueued ▸ hp.increasing, by rw [hlast, hqueued]; exact hp.marked⟩
  awaits r q ev hr hev := by
    obtain rfl := Option.some.inj (hport.symm.trans hr)
    rw [hflight] at hev
    unfold Port.Awaits
    rw [hlast, hqueued]
    exact hi.awaits p q ev hbefore hev

theorem inOrder_step (hone : h.OneAtATime a) (hi : h.InOrder i) : (h.step cfg a).InOrder i := by
  cases effect_step cfg h i a with
  | spared hsame =>
    obtain ⟨hport, hflight⟩ := hsame
    constructor <;> simp only [hport, hflight]
    exacts [hi.absent, hi.alone, hi.sorted, hi.awaits]
  | opened hnone hport hflight =>
    have hidle : ∀ q, (h.step cfg a).flight i q = none := fun q =>
      (hflight q).trans (hi.absent hnone q)
    refine ⟨fun _ => hidle, fun q _ hq => absurd (hidle q) hq, fun p hp => ?_, fun p q ev _ hev => ?_⟩
    · obtain rfl := Option.some.inj (hport.symm.trans hp)
      exact ⟨.nil, nofun⟩
    · rw [hidle] at hev
      cases hev
  | passed p q ev hpush hbefore hpass hport hflight hothers =>
    have hidle := flight_of_idle h (hone.idle hpush)
    -- the push that has just passed is the only one under way
    have honly : ∀ q', (h.step cfg a).flight i q' ≠ none → q' = q := by
      intro q' hq'
      by_contra hne
      exact hq' ((hothers q' hne).trans (hidle q'))
    have hp := hi.sorted p hbefore
    refine ⟨fun hnone => ?_, fun q' q'' hq' hq'' => ?_, fun r hr => ?_, fun r q' ev' hr hev' => ?_⟩
    · rw [hport] at hnone
      cases hnone
    · rw [honly q' hq', honly q'' hq'']
    · obtain rfl := Option.some.inj (hport.symm.trans hr)
      exact hp.mark hpass
    obtain rfl := Option.some.inj (hport.symm.trans hr)
    obtain rfl := honly q' (by simp [hev'])
    obtain rfl := Option.some.inj (hflight.symm.trans hev')
    exact hp.awaits_mark hpass
  | sent p q ev hbefore hflight hport hnone hothers =>
    -- what has been sent was the only push under way
    have hidle : ∀ q', (h.step cfg a).flight i q' = none := by
      intro q'
      by_cases hne : q' = q
      · rw [hne, hnone]
      by_contra hsome
      rw [hothers q' hne] at hsome
      exact hne (hi.alone q' q hsome (by simp [hflight]))
    refine ⟨fun _ => hidle, fun q' _ hq' => absurd (hidle q') hq', fun r hr => ?_,
      fun r q' ev' _ hev' => ?_⟩
    · obtain rfl := Option.some.inj (hport.symm.trans hr)
      exact (hi.sorted p hbefore).send (hi.awaits p q ev hbefore hflight)
    · rw [hidle] at hev'
      cases hev'
  | closed p hbefore hport hflight | shut p _ hbefore _ hport hflight =>
    exact hi.congr hbefore hport hflight rfl rfl
  | taken p hbefore hport hflight =>
    exact hi.congr hbefore hport hflight p.last_take p.queued_take

theorem inOrder_new (streams : Id → List Entry) (i : Nat) : (Hub.new streams).InOrder i where
  absent _ q := by cases q <;> rfl
  alone q _ hq := by cases q <;> exact absurd rfl hq
  sorted _ hp := by cases hp
  awaits _ _ _ hp := by cases hp

/-- The ids a reader gets from a subscription increase, in every run in which a push enters its
critical section only when no other push to the subscription is under way. -/
theorem received_in_order (c : Config) (streams : Id → List Entry) (as : List HubAction)
    (hone : Meets (step c.bounds) OneAtATime (Hub.new streams) as) :
    ∀ s ∈ (run (step c.bounds) (Hub.new streams) as).subs,
      (idsOf s.port.received).Pairwise fun a b => less a b = true := by
  intro s hs
  obtain ⟨i, hi⟩ := List.getElem?_of_mem hs
  have hrun := run_inv (I := fun h => h.InOrder i) (fun _ _ => inOrder_step)
    (inOrder_new streams i) hone
  exact (hrun.sorted s.port (by simp [port?, hi])).received

/-- A client of `"u1"` comes back with Last-Event-ID `1000-0` and has missed one event; another is
published when its subscription is registered. -/
def resumed (t : Id) (first second : Entry) : List HubAction :=
  [.publish t first, .subscribe t "u1" "1000-0" (unixMilli 1000) true, .range 0 true,
    .publish t second, .read 0, .dispatch 0 [0]]

def firstNote : Entry := ⟨⟨1000, 1⟩, "*", "note", "1"⟩

def secondNote : Entry := ⟨⟨1000, 2⟩, "*", "note", "2"⟩

/-- The replay sends before the loop pushes. -/
def replayFirst : List HubAction :=
  resumed 7 firstNote secondNote ++
    [.replayPush 0, .replaySend 0, .livePush 0, .liveSend 0, .take 0, .take 0]

/-- The loop pushes and sends while the push of the replay is under way. -/
def overtaken : List HubAction :=
  resumed 7 firstNote secondNote ++
    [.replayPush 0, .livePush 0, .liveSend 0, .replaySend 0, .take 0, .take 0]

/-- The default settings. -/
def plainConfig : Config := ⟨0, 0, 0, 0⟩

theorem received_in_order_resumed :
    (run (step plainConfig.bounds) (Hub.new fun _ => []) replayFirst).subs.map
        (fun s => idsOf s.port.received) = [[⟨1000, 1⟩, ⟨1000, 2⟩]] ∧
      ∀ s ∈ (run (step plainConfig.bounds) (Hub.new fun _ => []) replayFirst).subs,
        (idsOf s.port.received).Pairwise fun a b => less a b = true :=
  ⟨by decide +kernel, received_in_order plainConfig (fun _ => []) replayFirst (by decide +kernel)⟩

/-- The reader gets the second event first. -/
theorem received_out_of_order :
    ¬ ∀ (c : Config) (streams : Id → List Entry) (as : List HubAction),
      ∀ s ∈ (run (step c.bounds) (Hub.new streams) as).subs,
        (idsOf s.port.received).Pairwise fun a b => less a b = true := by
  intro h
  have hall := h plainConfig (fun _ => []) overtaken
  revert hall
  decide +kernel

/-! ## Closing -/

/-- The condition on an action: `close(s.ch)` is executed only when no push to the subscription is
under way. -/
def ShutsIdle (h : Hub) : HubAction → Prop
  | .shut i => h.busy i = false
  | _ => True

instance (h : Hub) (a : HubAction) : Decidable (h.ShutsIdle a) := by
  cases a <;> unfold ShutsIdle <;> infer_instance

/-- What holds of a subscription while its channel is closed only when nothing is under way. -/
structure Undisturbed (h : Hub) (i : Nat) : Prop where
  silent : ∀ p, h.port? i = some p → p.panicked = false
  closed : ∀ p, h.port? i = some p → p.shut = true → p.closed = true
  idle : ∀ p, h.port? i = some p → p.shut = true → ∀ q, h.flight i q = none

theorem Undisturbed.open_of_flight {q : Pusher} {ev : Event} (hi : h.Undisturbed i)
    (hp : h.port? i = some p) (hev : h.flight i q = some ev) : p.shut = false := by
  by_contra hshut
  have hnone := hi.idle p hp (Bool.not_eq_false _ |>.mp hshut) q
  rw [hev] at hnone
  cases hnone

theorem Undisturbed.open_of_passes {ev : Event} (hi : h.Undisturbed i) (hp : h.port? i = some p)
    (hpass : p.passes ev = true) : p.shut = false := by
  by_contra hshut
  have hclosed := hi.closed p hp (Bool.not_eq_false _ |>.mp hshut)
  simp [Port.passes, hclosed] at hpass

theorem undisturbed_of_open (hp : h.port? i = some p) (hshut : p.shut = false)
    (hsilent : p.panicked = false) : h.Undisturbed i := by
  have hopen : ∀ r, h.port? i = some r → ¬ r.shut = true := by
    intro r hr
    obtain rfl := Option.some.inj (hp.symm.trans hr)
    simp [hshut]
  refine ⟨fun r hr => ?_, fun r hr hs => absurd hs (hopen r hr), fun r hr hs => absurd hs (hopen r hr)⟩
  obtain rfl := Option.some.inj (hp.symm.trans hr)
  exact hsilent

/-- A change of the port that leaves the pushes, keeps what is closed closed and does not panic. -/
theorem Undisturbed.congr {h' : Hub} {p' : Port} (hi : h.Undisturbed i)
    (hbefore : h.port? i = some p) (hport : h'.port? i = some p')
    (hflight : ∀ q, h'.flight i q = h.flight i q) (hshut : p'.shut = p.shut)
    (hclosed : p.closed = true → p'.closed = true) (hsilent : p'.panicked = p.panicked) :
    h'.Undisturbed i := by
  refine ⟨fun r hr => ?_, fun r hr hs => ?_, fun r hr hs q => ?_⟩ <;>
    obtain rfl := Option.some.inj (hport.symm.trans hr)
  · rw [hsilent, hi.silent p hbefore]
  · exact hclosed (hi.closed p hbefore (hshut ▸ hs))
  · rw [hflight, hi.idle p hbefore (hshut ▸ hs)]

theorem send_of_open (ev : Event) (hshut : p.shut = false) :
    (p.send ev).shut = false ∧ (p.send ev).panicked = p.panicked := by
  unfold Port.send
  rw [if_neg (by simp [hshut])]
  split <;> exact ⟨hshut, rfl⟩

theorem undisturbed_step (hidle : h.ShutsIdle a) (hi : h.Undisturbed i) :
    (h.step cfg a).Undisturbed i := by
  cases effect_step cfg h i a with
  | spared hsame =>
    obtain ⟨hport, hflight⟩ := hsame
    constructor <;> simp only [hport, hflight]
    exacts [hi.silent, hi.closed, hi.idle]
  | opened _ hport _ => exact undisturbed_of_open hport rfl rfl
  | passed p q ev _ hbefore hpass hport _ _ =>
    have hopen : p.shut = false := hi.open_of_passes hbefore hpass
    exact undisturbed_of_open hport hopen (hi.silent p hbefore)
  | sent p q ev hbefore hflight hport _ _ =>
    obtain ⟨hopen, hsilent⟩ := send_of_open ev (hi.open_of_flight hbefore hflight)
    exact undisturbed_of_open hport hopen (hsilent.trans (hi.silent p hbefore))
  | closed p hbefore hport hflight => exact hi.congr hbefore hport hflight rfl (fun _ => rfl) rfl
  | shut p hact hbefore hclosed hport hflight =>
    -- the channel is closed here, and by the condition nothing is on its way to it
    subst hact
    refine ⟨fun r hr => ?_, fun r hr _ => ?_, fun r _ _ q => ?_⟩
    · obtain rfl := Option.some.inj (hport.symm.trans hr)
      exact hi.silent p hbefore
    · obtain rfl := Option.some.inj (hport.symm.trans hr)
      exact hclosed
    · rw [hflight, flight_of_idle h hidle]
  | taken p hbefore hport hflight =>
    refine hi.congr hbefore hport hflight ?_ ?_ ?_ <;> unfold Port.take <;> split <;> simp

/-- No push sends on a closed channel, in every run in which a channel is closed only when no push
to it is between its critical section and its send. -/
theorem never_sends_closed (c : Config) (streams : Id → List Entry) (as : List HubAction)
    (hidle : Meets (step c.bounds) ShutsIdle (Hub.new streams) as) :
    ∀ s ∈ (run (step c.bounds) (Hub.new streams) as).subs, s.port.panicked = false := by
  intro s hs
  obtain ⟨i, hi⟩ := List.getElem?_of_mem hs
  have hrun := run_inv (I := fun h => h.Undisturbed i) (fun _ _ => undisturbed_step)
    ⟨nofun, nofun, nofun⟩ hidle
  exact hrun.silent s.port (by simp [port?, hi])

/-- The client goes away when the replay has sent. -/
def closedAfter : List HubAction :=
  resumed 7 firstNote secondNote ++ [.replayPush 0, .replaySend 0, .close 0, .shut 0, .livePush 0]

/-- The stream is closed between the critical section of a push and its send. -/
def closedBetween : List HubAction :=
  resumed 7 firstNote secondNote ++ [.livePush 0, .close 0, .shut 0, .liveSend 0]

theorem never_sends_closed_after :
    (run (step plainConfig.bounds) (Hub.new fun _ => []) closedAfter).subs.map
        (fun s => s.port.shut) = [true] ∧
      ∀ s ∈ (run (step plainConfig.bounds) (Hub.new fun _ => []) closedAfter).subs,
        s.port.panicked = false :=
  ⟨by decide +kernel, never_sends_closed plainConfig (fun _ => []) closedAfter (by decide +kernel)⟩

/-- The loop's push sends on the channel that has been closed. -/
theorem sends_closed :
    ¬ ∀ (c : Config) (streams : Id → List Entry) (as : List HubAction),
      ∀ s ∈ (run (step c.bounds) (Hub.new streams) as).subs, s.port.panicked = false := by
  intro h
  have hall := h plainConfig (fun _ => []) closedBetween
  revert hall
  decide +kernel

end Hub

end Lcm.Stream
