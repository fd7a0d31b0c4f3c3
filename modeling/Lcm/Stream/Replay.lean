import Lcm.Stream.Hub
import Mathlib.Data.List.Pairwise

/-!
# Does a client that reconnects miss anything?

`Subscribe` pushes the missed entries, and the tenant's loop pushes new ones, to one channel of
32 places and under one high-water mark. `push` leaves out what is not above the mark, and the
replay does not look at its result.

* `no_silent_gap`: in every run in which no entry of the loop overtakes a missed one, the replay
  always finds room in the channel and the stream holds no more missed entries than the replay
  reads, every missed entry is queued, or a reset is, or the subscription is closed.
* `silent_gap`: without that, an event is lost.
-/

namespace Lcm.Stream

open Conc List Machine

/-- The entries that are left for the replay. -/
def Replay.todo : Replay → List Entry
  | .pushing todo | .sending _ todo => todo
  | _ => []

/-- The entry the loop is about to push. -/
def Live.held? : Live → Option Entry
  | .holding e => some e
  | _ => none

namespace Sub

/-- The entries the replay has still to push, read from the stream or not. -/
def missed (lastID : StreamID) (s : Sub) : List Entry :=
  if s.replay = .waiting then after lastID s.stream else s.replay.todo

def replaySending (s : Sub) : Bool :=
  match s.replay with
  | .sending _ _ | .sendingReset _ => true
  | _ => false

/-- The condition on an action: when the replay reads the stream it holds at most `MaxLen` missed
entries; when it sends, the channel has room; and when the loop pushes an entry, no smaller one
for this user is left to the replay. -/
def Fits (cfg : HubConfig) (user : String) (lastID : StreamID) (s : Sub) : Action → Prop
  | .range _ => (after lastID s.stream).length ≤ cfg.maxLen
  | .replaySend => s.replaySending = true → s.hasRoom = true
  | .livePush => ∀ e ∈ s.live.held?, ∀ o ∈ s.missed lastID, targets o.recipients user →
      ¬ less o.id e.id = true
  | _ => True

instance (cfg : HubConfig) (user : String) (lastID : StreamID) (s : Sub) :
    DecidablePred (s.Fits cfg user lastID)
  | .range _ => inferInstanceAs (Decidable ((after lastID s.stream).length ≤ cfg.maxLen))
  | .replaySend => inferInstanceAs (Decidable (s.replaySending = true → s.hasRoom = true))
  | .livePush => inferInstanceAs (Decidable (∀ _ ∈ _, _))
  | .publish _ | .replayPush | .read | .dispatch | .liveSend | .closeStalled | .take | .close =>
    .isTrue trivial

/-- The tenant's loop has still to deal with the entry, or is about to. -/
def InProgress (s : Sub) (e : Entry) : Prop :=
  less s.loop.last e.id = true ∨ s.live = .holding e ∨ s.live = .sending e ∨ s.live = .stalled e

end Sub

/-- The ids of the stream increase. -/
def Increasing (stream : List Entry) : Prop :=
  (∀ e ∈ stream, less zeroID e.id = true) ∧ stream.Pairwise fun e o => less e.id o.id = true

/-- The loop has come to an entry of the stream, and has read what comes next. -/
def Loop.Reads (l : Loop) (stream : List Entry) : Prop :=
  (l.last = zeroID ∨ ∃ e ∈ stream, e.id = l.last) ∧ l.batch <+: after l.last stream

variable {e : Entry} {stream : List Entry} {id : StreamID}

theorem Increasing.eq_of_id (h : Increasing stream) {o : Entry} (he : e ∈ stream) (ho : o ∈ stream)
    (hid : e.id = o.id) : e = o := by
  by_contra hne
  have hsym : stream.Pairwise fun e o => less e.id o.id = true ∨ less o.id e.id = true :=
    h.2.imp fun hl => .inl hl
  have : Std.Symm fun e o : Entry => less e.id o.id = true ∨ less o.id e.id = true :=
    ⟨fun _ _ => Or.symm⟩
  have hl := hsym.forall he ho hne
  rw [hid, or_self] at hl
  exact less_irrefl _ hl

theorem mem_after : e ∈ after id stream ↔ e ∈ stream ∧ less id e.id = true := mem_filter

theorem after_head (h : Increasing stream) {rest : List Entry}
    (hafter : after id stream = e :: rest) : after e.id stream = rest := by
  have hless : less id e.id = true := (mem_after.1 (hafter ▸ mem_cons_self)).2
  have hpair : (e :: rest).Pairwise fun e o => less e.id o.id = true :=
    hafter ▸ h.2.sublist filter_sublist
  calc after e.id stream
      = (after id stream).filter fun o => less e.id o.id := by
        unfold after
        rw [filter_filter]
        refine filter_congr fun o _ => ?_
        by_cases ho : less e.id o.id = true
        · rw [ho, less_trans hless ho]
          rfl
        · rw [Bool.not_eq_true] at ho
          rw [ho, Bool.false_and]
    _ = rest.filter fun o => less e.id o.id := by
        rw [hafter]
        exact filter_cons_of_neg (less_irrefl e.id)
    _ = rest := filter_eq_self.2 fun o ho => rel_of_pairwise_cons hpair ho

/-! ## What is always so -/

/-- What the parts of the hub know of the stream. -/
structure Wf (lastID : StreamID) (s : Sub) : Prop where
  stream : Increasing s.stream
  loop : s.loop.Reads s.stream
  mark : ∀ l, s.last = some l → ∃ e ∈ s.stream, e.id = l
  holding : ∀ e, s.live = .holding e → s.loop.last = e.id ∧ e ∈ s.stream
  todo : s.replay.todo.Sublist (after lastID s.stream)

namespace Wf

variable {cfg : HubConfig} {user : String} {lastID : StreamID} {s : Sub} (h : Wf lastID s)
include h

theorem loop_less (hzero : less zeroID id = true)
    (hall : ∀ o ∈ s.stream, less o.id id = true) : less s.loop.last id = true := by
  rcases h.loop.1 with hl | ⟨o, ho, hl⟩
  · rwa [hl]
  · rw [← hl]
    exact hall o ho

theorem head_least {batch : List Entry} (hb : s.loop.batch = e :: batch)
    {o : Entry} (ho : o ∈ s.stream) (hless : less s.loop.last o.id = true) :
    o = e ∨ less e.id o.id = true := by
  obtain ⟨rest, hrest⟩ := h.loop.2
  have hpair : (after s.loop.last s.stream).Pairwise fun e o => less e.id o.id = true :=
    h.stream.2.sublist filter_sublist
  have hmem := mem_after.2 ⟨ho, hless⟩
  rw [← hrest, hb, cons_append] at hpair hmem
  rcases mem_cons.1 hmem with rfl | hmem
  · exact .inl rfl
  · exact .inr (rel_of_pairwise_cons hpair hmem)

theorem publish (e : Entry) :
    Wf lastID (s.step cfg user lastID (.publish e)) := by
  unfold Sub.step
  dsimp only
  split
  · next hg =>
    simp only [Bool.and_eq_true, all_eq_true] at hg
    obtain ⟨hzero, hall⟩ := hg
    have hafter : ∀ id, after id (s.stream ++ [e]) = after id s.stream ++ after id [e] :=
      fun id => filter_append ..
    refine ⟨⟨?_, ?_⟩, ⟨?_, ?_⟩, ?_, ?_, ?_⟩
    · intro o ho
      rcases mem_append.1 ho with ho | ho
      · exact h.stream.1 o ho
      · obtain rfl := mem_singleton.1 ho
        exact hzero
    · rw [pairwise_append]
      refine ⟨h.stream.2, pairwise_singleton _ _, fun o ho e' he' => ?_⟩
      obtain rfl := mem_singleton.1 he'
      exact hall o ho
    · refine h.loop.1.imp_right ?_
      rintro ⟨o, ho, hl⟩
      exact ⟨o, mem_append_left _ ho, hl⟩
    · rw [hafter]
      exact h.loop.2.trans (prefix_append _ _)
    · intro l hl
      obtain ⟨o, ho, hid⟩ := h.mark l hl
      exact ⟨o, mem_append_left _ ho, hid⟩
    · intro o ho
      exact ⟨(h.holding o ho).1, mem_append_left _ (h.holding o ho).2⟩
    · rw [hafter]
      exact h.todo.trans (sublist_append_left _ _)
  · exact h

theorem dispatch : Wf lastID (s.step cfg user lastID .dispatch) := by
  unfold Sub.step
  dsimp only
  split
  · next e batch hlive hb =>
    have hmem : e ∈ after s.loop.last s.stream :=
      h.loop.2.subset (hb ▸ mem_cons_self)
    have hstream := (mem_after.1 hmem).1
    refine ⟨h.stream, ⟨.inr ⟨e, hstream, rfl⟩, ?_⟩, h.mark, ?_, h.todo⟩
    · obtain ⟨rest, hrest⟩ := h.loop.2
      rw [hb, cons_append] at hrest
      rw [after_head h.stream hrest.symm]
      exact prefix_append _ _
    intro o ho
    split at ho
    · cases ho
      exact ⟨rfl, hstream⟩
    · cases ho
  · exact h

theorem replayPush : Wf lastID (s.step cfg user lastID .replayPush) := by
  unfold Sub.step
  dsimp only
  split
  · next e todo hr =>
    have htodo : (e :: todo).Sublist (after lastID s.stream) := by
      have := h.todo
      rwa [hr] at this
    have hrest := (sublist_cons_self e todo).trans htodo
    split
    · exact ⟨h.stream, h.loop, h.mark, h.holding, hrest⟩
    refine ⟨h.stream, h.loop, ?_, h.holding, hrest⟩
    rintro l ⟨⟩
    exact ⟨e, (mem_after.1 (htodo.subset mem_cons_self)).1, rfl⟩
  · split
    · exact ⟨h.stream, h.loop, h.mark, h.holding, nil_sublist _⟩
    · exact ⟨h.stream, h.loop, h.mark, h.holding, nil_sublist _⟩
  · exact h

theorem replaySend : Wf lastID (s.step cfg user lastID .replaySend) := by
  unfold Sub.step
  dsimp only
  split
  · next e todo hr =>
    have htodo : todo.Sublist (after lastID s.stream) := by
      have := h.todo
      rwa [hr] at this
    split <;> exact ⟨h.stream, h.loop, h.mark, h.holding, htodo⟩
  · split <;> exact ⟨h.stream, h.loop, h.mark, h.holding, nil_sublist _⟩
  · exact h

theorem livePush : Wf lastID (s.step cfg user lastID .livePush) := by
  unfold Sub.step
  dsimp only
  split
  · next e he =>
    split
    · exact ⟨h.stream, h.loop, h.mark, (fun o ho => by cases ho), h.todo⟩
    refine ⟨h.stream, h.loop, ?_, (fun o ho => by cases ho), h.todo⟩
    rintro l ⟨⟩
    exact ⟨e, (h.holding e he).2, rfl⟩
  · exact h

theorem step (a : Action) : Wf lastID (s.step cfg user lastID a) := by
  cases a with
  | publish e => exact h.publish e
  | range ok =>
    unfold Sub.step
    dsimp only
    split
    · split
      · exact ⟨h.stream, h.loop, h.mark, h.holding, take_sublist _ _⟩
      · exact ⟨h.stream, h.loop, h.mark, h.holding, nil_sublist _⟩
    · exact h
  | replayPush => exact h.replayPush
  | replaySend => exact h.replaySend
  | read =>
    unfold Sub.step
    dsimp only
    split
    · exact ⟨h.stream, ⟨h.loop.1, take_prefix _ _⟩, h.mark, h.holding, h.todo⟩
    · exact h
  | dispatch => exact h.dispatch
  | livePush => exact h.livePush
  | liveSend =>
    unfold Sub.step
    dsimp only
    split
    · split
      · exact ⟨h.stream, h.loop, h.mark, (fun o ho => by cases ho), h.todo⟩
      · split <;> exact ⟨h.stream, h.loop, h.mark, (fun o ho => by cases ho), h.todo⟩
    · exact h
  | closeStalled =>
    unfold Sub.step
    dsimp only
    split
    · exact ⟨h.stream, h.loop, h.mark, (fun o ho => by cases ho), h.todo⟩
    · exact h
  | take =>
    unfold Sub.step
    dsimp only
    split
    · exact ⟨h.stream, h.loop, h.mark, h.holding, h.todo⟩
    · exact h
  | close => exact ⟨h.stream, h.loop, h.mark, h.holding, h.todo⟩

end Wf

/-! ## No entry is lost -/

/-- The entry is in the channel, or on its way past the critical section of `push`. -/
def Handled (s : Sub) (e : Entry) : Prop :=
  e.event ∈ s.queued ∨ (∃ todo, s.replay = .sending e todo) ∨ s.live = .sending e ∨
    s.live = .stalled e

/-- The loop has still to push the entry. -/
def Ahead (s : Sub) (e : Entry) : Prop := less s.loop.last e.id = true ∨ s.live = .holding e

/-- The entry is above the high-water mark, and somebody has still to push it: the replay, or the
loop after everything that is left to the replay. -/
structure Awaited (s : Sub) (e : Entry) : Prop where
  above : s.delivered e = false
  pusher : s.replay = .waiting ∨ e ∈ s.replay.todo ∨
    (Ahead s e ∧ ∀ o ∈ s.replay.todo, less o.id e.id = true)

/-- A reset is queued, or about to be. -/
def Resetting (s : Sub) : Prop :=
  ∃ reason, s.replay = .resetting reason ∨ s.replay = .sendingReset reason ∨
    resetEvent reason ∈ s.queued

/-- Every missed entry is on its way. -/
def Covered (user : String) (lastID : StreamID) (s : Sub) : Prop :=
  s.closed = true ∨ Resetting s ∨ ∀ e ∈ s.stream, less lastID e.id = true →
    targets e.recipients user = true → Handled s e ∨ Awaited s e

namespace Covered

variable {cfg : HubConfig} {user : String} {lastID : StreamID} {s s' : Sub}

theorem delivered_eq_false {s : Sub} :
    s.delivered e = false ↔ ∀ l, s.last = some l → less l e.id = true := by
  unfold Sub.delivered
  cases s.last <;> simp

theorem of_entries (h : Covered user lastID s) (hclosed : s.closed = true → s'.closed = true)
    (hreset : Resetting s → Resetting s') (hstream : s'.stream = s.stream)
    (hentry : ∀ e ∈ s.stream, less lastID e.id = true → targets e.recipients user = true →
      Handled s e ∨ Awaited s e → Handled s' e ∨ Awaited s' e) : Covered user lastID s' := by
  rcases h with h | h | h
  · exact .inl (hclosed h)
  · exact .inr (.inl (hreset h))
  refine .inr (.inr fun e he hid ht => ?_)
  rw [hstream] at he
  exact hentry e he hid ht (h e he hid ht)

theorem publish (hw : Wf lastID s) (h : Covered user lastID s) (e : Entry) :
    Covered user lastID (s.step cfg user lastID (.publish e)) := by
  unfold Sub.step
  dsimp only
  split
  · next hg =>
    simp only [Bool.and_eq_true, all_eq_true] at hg
    obtain ⟨hzero, hall⟩ := hg
    rcases h with h | h | h
    · exact .inl h
    · exact .inr (.inl h)
    refine .inr (.inr fun o ho hid ht => ?_)
    rcases mem_append.1 ho with ho | ho
    · exact (h o ho hid ht).imp id fun ha => ⟨ha.above, ha.pusher⟩
    · -- the new entry lies ahead of the loop and above everything else
      obtain rfl := mem_singleton.1 ho
      refine .inr ⟨?_, .inr (.inr ⟨.inl (hw.loop_less hzero hall), ?_⟩)⟩
      · refine delivered_eq_false.2 fun l hl => ?_
        obtain ⟨e', he', rfl⟩ := hw.mark l hl
        exact hall e' he'
      · exact fun e' he' => hall e' (mem_after.1 (hw.todo.subset he')).1
  · exact h

theorem range (h : Covered user lastID s) {ok : Bool}
    (hfits : (after lastID s.stream).length ≤ cfg.maxLen) :
    Covered user lastID (s.step cfg user lastID (.range ok)) := by
  unfold Sub.step
  dsimp only
  split
  · next hr =>
    split
    · refine h.of_entries id ?_ rfl ?_
      · rintro ⟨reason, hreset | hreset | hreset⟩
        · rw [hr] at hreset
          cases hreset
        · rw [hr] at hreset
          cases hreset
        · exact ⟨reason, .inr (.inr hreset)⟩
      rintro e he hid - (hh | ha)
      · rcases hh with hh | ⟨todo, hh⟩ | hh
        · exact .inl (.inl hh)
        · rw [hr] at hh
          cases hh
        · exact .inl (.inr (.inr hh))
      refine .inr ⟨ha.above, .inr (.inl ?_)⟩
      rw [take_of_length_le hfits]
      exact mem_after.2 ⟨he, hid⟩
    · exact .inr (.inl ⟨_, .inl rfl⟩)
  · exact h

theorem replayPush (hw : Wf lastID s) (h : Covered user lastID s) :
    Covered user lastID (s.step cfg user lastID .replayPush) := by
  unfold Sub.step
  dsimp only
  split
  · next e todo hr =>
    have htodo : s.replay.todo = e :: todo := by rw [hr]; rfl
    have hpair : (e :: todo).Pairwise fun e o => less e.id o.id = true := by
      rw [← htodo]
      exact hw.stream.2.sublist (hw.todo.trans filter_sublist)
    have hreset : ∀ s' : Sub, s'.queued = s.queued → Resetting s → Resetting s' := by
      rintro s' hq ⟨reason, hreset | hreset | hreset⟩
      · rw [hr] at hreset
        cases hreset
      · rw [hr] at hreset
        cases hreset
      · exact ⟨reason, .inr (.inr (hq ▸ hreset))⟩
    have hhandled : ∀ s' : Sub, s'.queued = s.queued → s'.live = s.live →
        ∀ o, Handled s o → Handled s' o := by
      rintro s' hq hl o (hh | ⟨todo, hh⟩ | hh)
      · exact .inl (hq ▸ hh)
      · rw [hr] at hh
        cases hh
      · exact .inr (.inr (hl ▸ hh))
    -- what is still awaited of the other entries
    have hothers : ∀ o, o ≠ e → Awaited s o →
        o ∈ todo ∨ (Ahead s o ∧ ∀ x ∈ e :: todo, less x.id o.id = true) := by
      rintro o hne ⟨-, hwait | hmem | hahead⟩
      · rw [hr] at hwait
        cases hwait
      · rw [htodo] at hmem
        exact .inl (mem_of_ne_of_mem hne hmem)
      · rw [htodo] at hahead
        exact .inr hahead
    split
    · next hskip =>
      by_cases hclosed : s.closed = true
      · exact .inl hclosed
      refine h.of_entries id (hreset _ rfl) rfl ?_
      rintro o ho hid ht (hh | ha)
      · refine .inl (hhandled _ ?_ ?_ o hh) <;> rfl
      have hne : o ≠ e := by
        -- an entry that is left out is not for this user, or is not awaited
        rintro rfl
        simp [ht, hclosed, ha.above] at hskip
      refine .inr ⟨ha.above, .inr ?_⟩
      rcases hothers o hne ha with hmem | ⟨hahead, hall⟩
      · exact .inl hmem
      · exact .inr ⟨hahead, fun x hx => hall x (mem_cons_of_mem _ hx)⟩
    · refine h.of_entries id (hreset _ rfl) rfl ?_
      rintro o ho hid ht (hh | ha)
      · refine .inl (hhandled _ ?_ ?_ o hh) <;> rfl
      by_cases hne : o = e
      · subst hne
        exact .inl (.inr (.inl ⟨todo, rfl⟩))
      refine .inr ⟨?_, .inr ?_⟩
      · refine delivered_eq_false.2 ?_
        rintro l ⟨⟩
        rcases hothers o hne ha with hmem | ⟨-, hall⟩
        · exact rel_of_pairwise_cons hpair hmem
        · exact hall e mem_cons_self
      rcases hothers o hne ha with hmem | ⟨hahead, hall⟩
      · exact .inl hmem
      · exact .inr ⟨hahead, fun x hx => hall x (mem_cons_of_mem _ hx)⟩
  · next reason hr =>
    split
    · next hclosed => exact .inl hclosed
    · exact .inr (.inl ⟨reason, .inr (.inl rfl)⟩)
  · exact h

theorem replaySend (h : Covered user lastID s)
    (hfits : s.replaySending = true → s.hasRoom = true) :
    Covered user lastID (s.step cfg user lastID .replaySend) := by
  by_cases hclosed : s.closed = true
  · left
    unfold Sub.step
    dsimp only
    split <;> (try split) <;> exact hclosed
  unfold Sub.step
  dsimp only
  split
  · next e todo hr =>
    have hroom := hfits (by simp [Sub.replaySending, hr])
    rw [if_pos (by simp [hclosed, hroom])]
    refine h.of_entries id ?_ rfl ?_
    · rintro ⟨reason, hreset | hreset | hreset⟩
      · rw [hr] at hreset
        cases hreset
      · rw [hr] at hreset
        cases hreset
      · exact ⟨reason, .inr (.inr (mem_append_left _ hreset))⟩
    rintro o ho hid ht (hh | ha)
    · left
      rcases hh with hh | ⟨todo', hh⟩ | hh
      · exact .inl (mem_append_left _ hh)
      · rw [hr] at hh
        cases hh
        exact .inl (mem_append_right _ mem_cons_self)
      · exact .inr (.inr hh)
    refine .inr ⟨ha.above, ?_⟩
    have hp := ha.pusher
    rw [hr] at hp
    rcases hp with hp | hp
    · cases hp
    · exact .inr hp
  · next reason hr =>
    have hroom := hfits (by simp [Sub.replaySending, hr])
    rw [if_pos (by simp [hclosed, hroom])]
    exact .inr (.inl ⟨reason, .inr (.inr (mem_append_right _ mem_cons_self))⟩)
  · exact h

theorem dispatch (hw : Wf lastID s) (h : Covered user lastID s) :
    Covered user lastID (s.step cfg user lastID .dispatch) := by
  unfold Sub.step
  dsimp only
  split
  · next e batch hlive hb =>
    by_cases hclosed : s.closed = true
    · exact .inl hclosed
    refine h.of_entries id id rfl ?_
    rintro o ho hid ht (hh | ha)
    · left
      rcases hh with hh | hh | hh | hh
      · exact .inl hh
      · exact .inr (.inl hh)
      · rw [hlive] at hh
        cases hh
      · rw [hlive] at hh
        cases hh
    refine .inr ⟨ha.above, ?_⟩
    rcases ha.pusher with hp | hp | ⟨hahead, hall⟩
    · exact .inl hp
    · exact .inr (.inl hp)
    refine .inr (.inr ⟨?_, hall⟩)
    rcases hahead with hless | hhold
    · rcases hw.head_least hb ho hless with rfl | hless
      · right
        simp [hclosed, ht]
      · exact .inl hless
    · rw [hlive] at hhold
      cases hhold
  · exact h

theorem livePush (hw : Wf lastID s) (h : Covered user lastID s)
    (hfits : ∀ e ∈ s.live.held?, ∀ o ∈ s.missed lastID, targets o.recipients user →
      ¬ less o.id e.id = true) : Covered user lastID (s.step cfg user lastID .livePush) := by
  unfold Sub.step
  dsimp only
  split
  · next e hlive =>
    have hhandled : ∀ s' : Sub, s'.queued = s.queued → s'.replay = s.replay →
        ∀ o, Handled s o → Handled s' o := by
      rintro s' hq hr o (hh | hh | hh | hh)
      · exact .inl (hq ▸ hh)
      · exact .inr (.inl (hr ▸ hh))
      · rw [hlive] at hh
        cases hh
      · rw [hlive] at hh
        cases hh
    split
    · next hskip =>
      by_cases hclosed : s.closed = true
      · exact .inl hclosed
      refine h.of_entries id id rfl ?_
      rintro o ho hid ht (hh | ha)
      · refine .inl (hhandled _ ?_ ?_ o hh) <;> rfl
      refine .inr ⟨ha.above, ?_⟩
      rcases ha.pusher with hp | hp | ⟨hless | hhold, hall⟩
      · exact .inl hp
      · exact .inr (.inl hp)
      · exact .inr (.inr ⟨.inl hless, hall⟩)
      · -- the entry that is left out is not awaited
        rw [hlive] at hhold
        cases hhold
        simp [hclosed, ha.above] at hskip
    · refine h.of_entries id id rfl ?_
      obtain ⟨hlast, hestream⟩ := hw.holding e hlive
      rintro o ho hid ht (hh | ha)
      · refine .inl (hhandled _ ?_ ?_ o hh) <;> rfl
      by_cases hne : o = e
      · subst hne
        exact .inl (.inr (.inr (.inl rfl)))
      -- the others are above the new mark
      have hmissed : o ∈ s.missed lastID → less e.id o.id = true := by
        intro hm
        rcases eq_or_less_of_not_less (hfits e (by rw [hlive]; rfl) o hm ht) with heq | hless
        · exact absurd (hw.stream.eq_of_id hestream ho heq).symm hne
        · exact hless
      have hahead : Ahead s o → less e.id o.id = true := by
        rintro (hless | hhold)
        · rwa [hlast] at hless
        rw [hlive] at hhold
        cases hhold
        exact absurd rfl hne
      have habove : less e.id o.id = true := by
        rcases ha.pusher with hp | hp | ⟨hp, -⟩
        · exact hmissed (by simp [Sub.missed, hp, mem_after, ho, hid])
        · refine hmissed ?_
          unfold Sub.missed
          rw [if_neg]
          · exact hp
          intro hw
          rw [hw] at hp
          cases hp
        · exact hahead hp
      refine .inr ⟨delivered_eq_false.2 (by rintro l ⟨⟩; exact habove), ?_⟩
      rcases ha.pusher with hp | hp | ⟨hp, hall⟩
      · exact .inl hp
      · exact .inr (.inl hp)
      refine .inr (.inr ⟨.inl ?_, hall⟩)
      rw [hlast]
      exact habove
  · exact h

theorem liveSend (h : Covered user lastID s) :
    Covered user lastID (s.step cfg user lastID .liveSend) := by
  unfold Sub.step
  dsimp only
  split
  · next e hlive =>
    have hpusher : ∀ s' : Sub, s'.last = s.last → s'.replay = s.replay → s'.loop = s.loop →
        ∀ o, Awaited s o → Awaited s' o := by
      intro s' hm hr hl o ha
      refine ⟨?_, ?_⟩
      · rw [delivered_eq_false, hm, ← delivered_eq_false]
        exact ha.above
      rw [hr]
      rcases ha.pusher with hp | hp | ⟨hless | hhold, hall⟩
      · exact .inl hp
      · exact .inr (.inl hp)
      · exact .inr (.inr ⟨.inl (hl ▸ hless), hall⟩)
      · rw [hlive] at hhold
        cases hhold
    split
    · next hclosed => exact .inl hclosed
    split
    · refine h.of_entries id ?_ rfl ?_
      · rintro ⟨reason, hreset⟩
        exact ⟨reason, hreset.imp id (Or.imp id (mem_append_left _))⟩
      rintro o ho hid ht (hh | ha)
      · left
        rcases hh with hh | hh | hh | hh
        · exact .inl (mem_append_left _ hh)
        · exact .inr (.inl hh)
        · rw [hlive] at hh
          cases hh
          exact .inl (mem_append_right _ mem_cons_self)
        · rw [hlive] at hh
          cases hh
      · refine .inr (hpusher _ ?_ ?_ ?_ o ha) <;> rfl
    · refine h.of_entries id id rfl ?_
      rintro o ho hid ht (hh | ha)
      · left
        rcases hh with hh | hh | hh | hh
        · exact .inl hh
        · exact .inr (.inl hh)
        · rw [hlive] at hh
          cases hh
          exact .inr (.inr (.inr rfl))
        · rw [hlive] at hh
          cases hh
      · refine .inr (hpusher _ ?_ ?_ ?_ o ha) <;> rfl
  · exact h

theorem step (hw : Wf lastID s) (h : Covered user lastID s) {a : Action}
    (hfits : s.Fits cfg user lastID a) : Covered user lastID (s.step cfg user lastID a) := by
  cases a with
  | publish e => exact publish hw h e
  | range ok => exact h.range hfits
  | replayPush => exact replayPush hw h
  | replaySend => exact h.replaySend hfits
  | dispatch => exact dispatch hw h
  | livePush => exact livePush hw h hfits
  | liveSend => exact h.liveSend
  | read =>
    unfold Sub.step
    dsimp only
    split
    · exact h.of_entries id id rfl fun e _ _ _ => Or.imp id fun ha => ⟨ha.above, ha.pusher⟩
    · exact h
  | closeStalled =>
    unfold Sub.step
    dsimp only
    split
    · exact .inl rfl
    · exact h
  | take =>
    unfold Sub.step
    dsimp only
    split
    · exact h.of_entries id id rfl fun e _ _ _ => Or.imp id fun ha => ⟨ha.above, ha.pusher⟩
    · exact h
  | close => exact .inl rfl

end Covered

theorem wf_subscribe {cfg : HubConfig} {loop : Option Loop} {m n : Nat} {now : Time}
    {lastID : String} {s : Sub} (hstream : Increasing stream) (hloop : ∀ l ∈ loop, l.Reads stream)
    (hid : parseID lastID = some id) (hwindow : inWindow cfg now id = true) (hne : lastID ≠ "")
    (h : subscribe cfg stream loop m n now lastID = some s) :
    Wf id s ∧ s.replay = .waiting ∧ s.last = none := by
  unfold subscribe at h
  split at h
  · cases h
  cases h
  have hreplay : startReplay cfg now lastID = .waiting := by
    simp [startReplay, hne, hid, hwindow]
  refine ⟨⟨hstream, ?_, ?_, ?_, ?_⟩, hreplay, rfl⟩
  · cases hl : loop with
    | some l => exact hloop l hl
    | none =>
      -- a new loop starts at the end of the stream
      refine ⟨?_, nil_prefix⟩
      unfold tailID
      cases hlast : stream.getLast? with
      | none => exact .inl rfl
      | some e => exact .inr ⟨e, mem_of_getLast? hlast, rfl⟩
  · rintro l ⟨⟩
  · rintro e ⟨⟩
  · rw [hreplay]
    exact nil_sublist _

/-- When `Subscribe` has returned, every entry after the Last-Event-ID that targets the user and
that the loop is not still to deal with is queued, or a reset is queued, or the subscription is
closed, in every run whose actions all meet the condition. -/
theorem no_silent_gap (cfg : HubConfig) (user : String) (stream : List Entry)
    (hstream : Increasing stream) (loop : Option Loop) (hloop : ∀ l ∈ loop, l.Reads stream)
    (userStreams tenantStreams : Nat) (now : Time) (lastID : String) (id : StreamID)
    (hne : lastID ≠ "") (hid : parseID lastID = some id) (hwindow : inWindow cfg now id = true)
    (s : Sub) (hs : subscribe cfg stream loop userStreams tenantStreams now lastID = some s)
    (as : List Action)
    (hfits : Meets (Sub.step cfg user id) (Sub.Fits cfg user id) s as)
    (s' : Sub) (hs' : s' = run (Sub.step cfg user id) s as) (hret : s'.returned = true)
    (e : Entry) (he : e ∈ s'.stream) (hafter : less id e.id = true)
    (ht : targets e.recipients user = true) (hdone : ¬ s'.InProgress e) :
    e.event ∈ s'.queued ∨ (∃ reason, resetEvent reason ∈ s'.queued) ∨ s'.closed = true := by
  obtain ⟨hw, hwait, hmark⟩ := wf_subscribe hstream hloop hid hwindow hne hs
  have hstart : Covered user id s := by
    refine .inr (.inr fun e _ _ _ => .inr ⟨?_, .inl hwait⟩)
    simp [Sub.delivered, hmark]
  have hend : Wf id s' ∧ Covered user id s' := by
    rw [hs']
    refine run_inv (I := fun s => Wf id s ∧ Covered user id s) ?_ ⟨hw, hstart⟩ hfits
    rintro s a hfit ⟨hw, hc⟩
    exact ⟨hw.step a, Covered.step hw hc hfit⟩
  have hr : s'.replay = .pushing [] := by simpa [Sub.returned] using hret
  rcases hend.2 with hclosed | ⟨reason, hreset⟩ | hall
  · exact .inr (.inr hclosed)
  · right
    left
    rcases hreset with hreset | hreset | hreset
    · rw [hr] at hreset
      cases hreset
    · rw [hr] at hreset
      cases hreset
    · exact ⟨reason, hreset⟩
  left
  rcases hall e he hafter ht with hh | ha
  · rcases hh with hh | ⟨todo, hh⟩ | hh | hh
    · exact hh
    · rw [hr] at hh
      cases hh
    · exact absurd (.inr (.inr (.inl hh))) hdone
    · exact absurd (.inr (.inr (.inr hh))) hdone
  have hp := ha.pusher
  rw [hr] at hp
  rcases hp with hp | hp | ⟨hless | hhold, -⟩
  · cases hp
  · cases hp
  · exact absurd (.inl hless) hdone
  · exact absurd (.inr (.inl hhold)) hdone

/-! ## A client that has missed two events -/

namespace Sample

def config : HubConfig := ⟨300 * second, 5, 2000, 10000⟩

/-- An event for everyone. -/
def entry (n : Nat) : Entry := ⟨⟨1000, n⟩, "*", "issued", "\x7b\x7d"⟩

/-- The subscription at its registration. The tenant's loop runs and has still to dispatch the
second event. -/
def start : Sub where
  stream := [entry 1, entry 2]
  loop := ⟨⟨1000, 1⟩, [entry 2]⟩
  live := .idle
  replay := .waiting
  last := none
  closed := false
  queued := []
  taken := 0

/-- The replay pushes both events, then the loop its one. -/
def replayFirst : List Action :=
  [.range true, .replayPush, .replaySend, .replayPush, .replaySend, .dispatch, .livePush]

/-- The loop pushes the second event, then the replay comes to the first one. -/
def liveFirst : List Action :=
  [.dispatch, .livePush, .liveSend, .range true, .replayPush, .replayPush]

theorem increasing_start : Increasing start.stream := ⟨by decide, by decide⟩

theorem reads_start : ∀ l ∈ some start.loop, l.Reads start.stream := by
  rintro l ⟨⟩
  exact ⟨.inr ⟨entry 1, mem_cons_self, rfl⟩, by decide⟩

theorem subscribe_start : subscribe config start.stream (some start.loop) 0 0
    (unixMilli 1000 + second) "1000-0" = some start := by decide

end Sample

open Sample

/-- When the replay comes first, the first event is queued. -/
theorem no_silent_gap_replay_first :
    let s' := run (Sub.step config "ann" ⟨1000, 0⟩) start replayFirst
    (entry 1).event ∈ s'.queued ∨ (∃ reason, resetEvent reason ∈ s'.queued) ∨
      s'.closed = true := by
  intro s'
  have hdone : ¬ s'.InProgress (entry 1) := by
    rintro (h | h | h | h)
    · exact absurd h (by decide)
    · exact absurd h (by decide)
    · exact absurd h (by decide)
    · exact absurd h (by decide)
  exact no_silent_gap config "ann" _ increasing_start _ reads_start 0 0
    (unixMilli 1000 + second) "1000-0" ⟨1000, 0⟩ (by decide) (by decide) (by decide) _
    subscribe_start replayFirst (by decide) s' rfl (by decide) (entry 1)
    (by decide) (by decide) (by decide) hdone

/-- When the loop pushes the second event before the replay has come to the first one, the first
one is left out, with no reset and the subscription open. -/
theorem silent_gap :
    ¬ ∀ (cfg : HubConfig) (user : String) (stream : List Entry), Increasing stream →
      ∀ loop : Option Loop, (∀ l ∈ loop, l.Reads stream) →
      ∀ (userStreams tenantStreams : Nat) (now : Time) (lastID : String) (id : StreamID),
      lastID ≠ "" → parseID lastID = some id → inWindow cfg now id = true →
      ∀ s, subscribe cfg stream loop userStreams tenantStreams now lastID = some s →
      ∀ (as : List Action) (s' : Sub), s' = run (Sub.step cfg user id) s as →
      s'.returned = true → ∀ e ∈ s'.stream, less id e.id = true →
      targets e.recipients user = true → ¬ s'.InProgress e →
      e.event ∈ s'.queued ∨ (∃ reason, resetEvent reason ∈ s'.queued) ∨ s'.closed = true := by
  intro h
  let s' := run (Sub.step config "ann" ⟨1000, 0⟩) start liveFirst
  have hqueued : s'.queued = [(entry 2).event] := by decide
  have hdone : ¬ s'.InProgress (entry 1) := by
    rintro (h | h | h | h)
    · exact absurd h (by decide)
    · exact absurd h (by decide)
    · exact absurd h (by decide)
    · exact absurd h (by decide)
  rcases h config "ann" _ increasing_start _ reads_start 0 0
    (unixMilli 1000 + second) "1000-0" ⟨1000, 0⟩ (by decide) (by decide) (by decide) _
    subscribe_start liveFirst s' rfl (by decide) (entry 1) (by decide)
    (by decide) (by decide) hdone with hev | ⟨reason, hreset⟩ | hclosed
  · exact absurd hev (by decide)
  · rw [hqueued, mem_singleton] at hreset
    cases hreset
  · exact absurd hclosed (by decide)

end Lcm.Stream
