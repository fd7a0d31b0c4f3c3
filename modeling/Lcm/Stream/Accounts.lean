import Lcm.Stream.Fanout

/-!
# The hub's accounts

The counters, the entries and the loops of the tenants, over every interleaving of `Subscribe`,
`Close` and `Hub.Close`. Only the critical sections of `Subscribe` and of the first `Close` of a
subscription write the accounts.

* `Hub.openIn`, `Hub.openOf`: the open subscriptions of a tenant, and of a user in it.
* `Hub.Balanced`: what holds of the accounts in every state.
* `accounts_balanced`: counters, limits, entries and loops.
-/

namespace Lcm.Stream

open Conc List

variable {s : Subscription} {g : TenantSub → TenantSub} {acc : Account}

namespace Hub

variable {cfg : HubConfig} {h h' : Hub} {t : Id} {i k : Nat} {a : HubAction}

/-! ## Open subscriptions -/

section Open

variable (h)

/-- The subscriptions that are open and whose tenant and user satisfy `p`. -/
def opens (p : Id → String → Bool) : List Nat :=
  (List.range h.subs.length).filter fun i =>
    h.subs[i]?.any fun s => p s.tenant s.user && !s.port.closed

/-- The open subscriptions of a tenant. -/
def openIn (t : Id) : List Nat := h.opens fun t' _ => t' == t

/-- The open subscriptions of a user in a tenant. -/
def openOf (t : Id) (user : String) : List Nat := h.opens fun t' user' => t' == t && user' == user

/-- The counter of a user's streams in a tenant; there is none without an entry. -/
def counter (t : Id) (user : String) : Int :=
  ((h.tenants t).bind fun k => h.tenantSubs[k]?.map fun ts => ts.account.byUser user).getD 0

/-- Loop `k` reads the stream of tenant `t`: it has neither been cancelled nor returned. -/
def Reads (t : Id) (k : Nat) : Prop :=
  ∃ ts, h.tenantSubs[k]? = some ts ∧ ts.account.tenant = t ∧ ts.account.cancelled = false ∧
    ts.ended = false

end Open

theorem mem_opens {p : Id → String → Bool} :
    i ∈ h.opens p ↔ ∃ s, h.subs[i]? = some s ∧ p s.tenant s.user = true ∧ s.port.closed = false := by
  simp only [opens, mem_filter, mem_range, Option.any_eq_true, Bool.and_eq_true,
    Bool.not_eq_true']
  constructor
  · exact fun hi => hi.2
  · rintro ⟨s, hs, hp⟩
    exact ⟨(List.getElem?_eq_some_iff.1 hs).1, s, hs, hp⟩

theorem openOf_sublist (h : Hub) (t : Id) (user : String) : (h.openOf t user).Sublist (h.openIn t) := by
  refine monotone_filter_right _ fun i hi => ?_
  rw [Option.any_eq_true] at *
  obtain ⟨s, hs, hp⟩ := hi
  simp only [Bool.and_eq_true] at hp
  exact ⟨s, hs, by simp [hp]⟩

theorem openOf_eq_nil (hnone : h.openIn t = []) (user : String) : h.openOf t user = [] :=
  sublist_nil.1 (hnone ▸ openOf_sublist h t user)

theorem opens_append (hs : h'.subs = h.subs ++ [s]) (hopen : s.port.closed = false)
    (p : Id → String → Bool) :
    h'.opens p = h.opens p ++ if p s.tenant s.user then [h.subs.length] else [] := by
  unfold opens
  rw [hs, length_append, length_singleton, range_succ, filter_append]
  congr 1
  · refine filter_congr fun i hi => ?_
    rw [getElem?_append_left (mem_range.1 hi)]
  · simp [filter_cons, hopen]

theorem opens_close (hs : h.subs[i]? = some s) (p : Id → String → Bool)
    (hsubs : h'.subs = h.subs.modify i fun s => { s with port := { s.port with closed := true } }) :
    h'.opens p = (h.opens p).erase i := by
  have hnodup : (h.opens p).Nodup := nodup_range.filter _
  rw [hnodup.erase_eq_filter i]
  unfold opens
  rw [hsubs, length_modify, filter_filter]
  refine filter_congr fun j _ => ?_
  by_cases hj : i = j
  · subst hj
    simp [hs]
  · simp [hj, Ne.symm hj]

/-! ## Actions that leave the accounts alone -/

/-- What the accounts are about in a subscription. -/
def badge (s : Subscription) : Id × String × Bool := (s.tenant, s.user, s.port.closed)

/-- Entries, accounts and open subscriptions are as they were. -/
structure SameBooks (h h' : Hub) : Prop where
  tenants : h'.tenants = h.tenants
  accounts : h'.tenantSubs.map TenantSub.account = h.tenantSubs.map TenantSub.account
  badges : h'.subs.map badge = h.subs.map badge

/-- A loop returns only when it or the hub has been cancelled. -/
def EndsCancelled (h : Hub) : Prop :=
  ∀ ts ∈ h.tenantSubs, ts.ended = true → ts.account.cancelled = true ∨ h.done = true

/-- The action does not write the accounts. -/
structure Leaves (h h' : Hub) : Prop extends SameBooks h h' where
  ends : h.EndsCancelled → h'.EndsCancelled

theorem Leaves.trans {h1 h2 h3 : Hub} (h12 : h1.Leaves h2) (h23 : h2.Leaves h3) : h1.Leaves h3 :=
  ⟨⟨h23.tenants.trans h12.tenants, h23.accounts.trans h12.accounts, h23.badges.trans h12.badges⟩,
    fun hends => h23.ends (h12.ends hends)⟩

theorem map_modify_of {α β : Type} {g : α → β} {f : α → α} (hf : ∀ x, g (f x) = g x) (l : List α)
    (i : Nat) : (l.modify i f).map g = l.map g := by
  refine ext_getElem? fun j => ?_
  simp only [getElem?_map, getElem?_modify]
  split <;> simp [Function.comp_def, hf]

theorem EndsCancelled.modify (hends : h.EndsCancelled) (hdone : h'.done = h.done)
    (hsubs : h'.tenantSubs = h.tenantSubs.modify k g)
    (hg : ∀ ts, h.tenantSubs[k]? = some ts → (ts.ended = true → ts.account.cancelled = true ∨ h.done = true) → (g ts).ended = true → (g ts).account.cancelled = true ∨ h.done = true)
    : h'.EndsCancelled := by
  intro ts' hts'
  rw [hsubs] at hts'
  obtain ⟨j, hj⟩ := getElem?_of_mem hts'
  rw [getElem?_modify] at hj
  obtain ⟨ts, hts, rfl⟩ := Option.map_eq_some_iff.1 hj
  have hold := hends ts (mem_of_getElem? hts)
  rw [hdone]
  split
  · next hk =>
    subst hk
    exact hg ts hts hold
  · exact hold

theorem leaves_setSub {f : Subscription → Subscription} (hf : ∀ s, badge (f s) = badge s) :
    h.Leaves (h.setSub i f) :=
  ⟨⟨rfl, rfl, map_modify_of hf h.subs i⟩, id⟩

theorem leaves_setTenant (hg : ∀ ts, (g ts).account = ts.account)
    (hended : ∀ ts, h.tenantSubs[k]? = some ts → (g ts).ended = true → ts.ended = true ∨ ts.account.cancelled = true ∨ h.done = true)
    : h.Leaves (h.setTenant k g) := by
  refine ⟨⟨rfl, map_modify_of hg h.tenantSubs k, rfl⟩, fun hends => hends.modify rfl rfl ?_⟩
  intro ts hts hold hnew
  rw [hg]
  rcases hended ts hts hnew with hended | hcancelled
  · exact hold hended
  · exact hcancelled

theorem SameBooks.opens (hb : h.SameBooks h') (p : Id → String → Bool) : h'.opens p = h.opens p := by
  have hlen : h'.subs.length = h.subs.length := by
    simpa using congrArg List.length hb.badges
  unfold Hub.opens
  rw [hlen]
  refine filter_congr fun i _ => ?_
  have hget := congrArg (fun l => l[i]?) hb.badges
  simp only [getElem?_map] at hget
  cases hs : h.subs[i]? <;> cases hs' : h'.subs[i]? <;> simp_all [badge]

theorem SameBooks.account (hb : h.SameBooks h') {ts' : TenantSub} (hts : h'.tenantSubs[k]? = some ts') :
    ∃ ts, h.tenantSubs[k]? = some ts ∧ ts'.account = ts.account := by
  have hget := congrArg (fun l => l[k]?) hb.accounts
  simp only [getElem?_map, hts, Option.map_some] at hget
  obtain ⟨ts, hts', heq⟩ := Option.map_eq_some_iff.1 hget.symm
  exact ⟨ts, hts', heq.symm⟩

theorem SameBooks.symm (hb : h.SameBooks h') : h'.SameBooks h :=
  ⟨hb.tenants.symm, hb.accounts.symm, hb.badges.symm⟩

/-- The action is a critical section that writes the accounts. -/
def Books : HubAction → Prop
  | .subscribe .. | .close _ => True
  | _ => False

theorem closed_send (p : Port) (ev : Event) : (p.send ev).closed = p.closed := by
  unfold Port.send
  split
  · rfl
  · split <;> rfl

theorem leaves_step (ha : ¬ Books a) : h.Leaves (h.step cfg a) := by
  have hsame : h.Leaves h := ⟨⟨rfl, rfl, rfl⟩, id⟩
  cases a with
  | publish t e =>
    simp only [step]
    split
    · exact ⟨⟨rfl, rfl, rfl⟩, id⟩
    · exact hsame
  | subscribe => exact absurd trivial ha
  | range i ok =>
    simp only [step]
    split
    · split
      · exact leaves_setSub fun s => rfl
      · exact hsame
    · exact hsame
  | replayPush i =>
    simp only [step]
    split
    · split
      · split <;> exact leaves_setSub fun s => rfl
      · split <;> exact leaves_setSub fun s => rfl
      · exact hsame
    · exact hsame
  | replaySend i =>
    simp only [step]
    split
    · split
      · exact leaves_setSub fun s => by simp only [badge, closed_send]
      · exact leaves_setSub fun s => by simp only [badge, closed_send]
      · exact hsame
    · exact hsame
  | read k =>
    simp only [step]
    split
    · next ts hts =>
      split
      · split
        · next hstop =>
          refine leaves_setTenant (fun ts => rfl) fun ts' hts' _ => .inr ?_
          obtain rfl := Option.some.inj (hts.symm.trans hts')
          simpa using hstop
        · exact leaves_setTenant (fun ts => rfl) fun ts _ => .inl
      · exact hsame
    · exact hsame
  | dispatch k order =>
    simp only [step]
    split
    · split
      · split
        · exact leaves_setTenant (fun ts => rfl) fun ts _ => .inl
        · exact hsame
      · exact hsame
    · exact hsame
  | livePush k =>
    simp only [step]
    split
    · split
      · exact leaves_setTenant (fun ts => rfl) fun ts _ => .inl
      · split
        · split
          · refine (leaves_setSub fun s => ?_).trans (leaves_setTenant (fun ts => rfl) fun ts _ => .inl)
            rfl
          · exact leaves_setTenant (fun ts => rfl) fun ts _ => .inl
        · exact hsame
      · exact hsame
    · exact hsame
  | liveSend k =>
    simp only [step]
    split
    · split
      · split
        · refine (leaves_setSub fun s => ?_).trans (leaves_setTenant (fun ts => rfl) fun ts _ => .inl)
          simp only [badge, closed_send]
        · exact hsame
      · exact hsame
    · exact hsame
  | resume k =>
    simp only [step]
    split
    · split
      · split
        · exact leaves_setTenant (fun ts => rfl) fun ts _ => .inl
        · exact hsame
      · exact hsame
    · exact hsame
  | close => exact absurd trivial ha
  | shut i =>
    simp only [step]
    split
    · split
      · exact leaves_setSub fun s => rfl
      · exact hsame
    · exact hsame
  | cancel => exact ⟨⟨rfl, rfl, rfl⟩, fun _ _ _ _ => .inr rfl⟩
  | take i =>
    simp only [step]
    split
    · split
      · exact leaves_setSub fun s => by unfold badge Port.take; split <;> rfl
      · exact hsame
    · exact hsame

/-! ## The accounts -/

/-- The account agrees with the open subscriptions of the tenant. -/
structure Balances (cfg : HubConfig) (h : Hub) (t : Id) (acc : Account) : Prop where
  tenant : acc.tenant = t
  uncancelled : acc.cancelled = false
  conns : acc.conns = h.openIn t
  byUser : ∀ user, acc.byUser user = (h.openOf t user).length
  perUser : ∀ user, (h.openOf t user).length ≤ cfg.streamsPerUser
  perTenant : (h.openIn t).length ≤ cfg.streamsPerTenant

/-- What holds of the accounts in every state. -/
structure Balanced (cfg : HubConfig) (h : Hub) : Prop where
  entry : ∀ t k, h.tenants t = some k →
    ∃ ts, h.tenantSubs[k]? = some ts ∧ h.Balances cfg t ts.account
  inUse : ∀ t, h.tenants t ≠ none ↔ h.openIn t ≠ []
  current : ∀ k ts, h.tenantSubs[k]? = some ts → ts.account.cancelled = false →
    h.tenants ts.account.tenant = some k

theorem balanced_new (cfg : HubConfig) (streams : Id → List Entry) :
    (Hub.new streams).Balanced cfg where
  entry _ _ hk := by cases hk
  inUse _ := ⟨fun hne => absurd rfl hne, fun hne => absurd rfl hne⟩
  current _ _ hts := by cases hts

theorem Balances.congr (hacc : h.Balances cfg t acc) (hin : h'.openIn t = h.openIn t)
    (hof : ∀ user, h'.openOf t user = h.openOf t user) : h'.Balances cfg t acc where
  tenant := hacc.tenant
  uncancelled := hacc.uncancelled
  conns := hacc.conns.trans hin.symm
  byUser user := by rw [hof]; exact hacc.byUser user
  perUser user := by rw [hof]; exact hacc.perUser user
  perTenant := by rw [hin]; exact hacc.perTenant

theorem Balanced.congr (hbal : h.Balanced cfg) (hb : h.SameBooks h') : h'.Balanced cfg where
  entry t k hk := by
    rw [hb.tenants] at hk
    obtain ⟨ts, hts, hacc⟩ := hbal.entry t k hk
    obtain ⟨ts', hts', heq⟩ := hb.symm.account hts
    refine ⟨ts', hts', heq ▸ hacc.congr (hb.opens _) fun user => hb.opens _⟩
  inUse t := by
    rw [hb.tenants, openIn, hb.opens]
    exact hbal.inUse t
  current k ts' hts' hun := by
    obtain ⟨ts, hts, heq⟩ := hb.account hts'
    rw [hb.tenants, heq]
    exact hbal.current k ts hts (heq ▸ hun)

/-! ### Subscribe -/

/-- `Subscribe` has found the entry of the tenant or made a new one: all is in order but that the
entry may have no subscription yet. -/
structure Ready (cfg : HubConfig) (h : Hub) (t : Id) (k : Nat) : Prop where
  entry : ∀ t k, h.tenants t = some k →
    ∃ ts, h.tenantSubs[k]? = some ts ∧ h.Balances cfg t ts.account
  found : h.tenants t = some k
  inUse : ∀ t', t' ≠ t → (h.tenants t' ≠ none ↔ h.openIn t' ≠ [])
  current : ∀ k ts, h.tenantSubs[k]? = some ts → ts.account.cancelled = false →
    h.tenants ts.account.tenant = some k

theorem Balanced.ready (hbal : h.Balanced cfg) (hk : h.tenants t = some k) : h.Ready cfg t k :=
  ⟨hbal.entry, hk, fun t' _ => hbal.inUse t', hbal.current⟩

@[simp] theorem tenants_addTenant_self (h : Hub) (t : Id) :
    (h.addTenant t).tenants t = some h.tenantSubs.length := Function.update_self ..

theorem tenants_addTenant_ne {t' : Id} (ht' : t' ≠ t) : (h.addTenant t).tenants t' = h.tenants t' :=
  Function.update_of_ne ht' ..

theorem balances_empty (hnone : h.openIn t = []) :
    h.Balances cfg t ⟨t, [], fun _ => 0, false⟩ := by
  have hof := openOf_eq_nil hnone
  refine ⟨rfl, rfl, hnone.symm, fun user => ?_, fun user => ?_, ?_⟩
  · rw [hof]
    rfl
  · rw [hof]
    exact Nat.zero_le _
  · rw [hnone]
    exact Nat.zero_le _

theorem Balanced.openIn_eq_nil (hbal : h.Balanced cfg) (ht : h.tenants t = none) :
    h.openIn t = [] := by
  by_contra hne
  exact (hbal.inUse t).2 hne ht

theorem Balanced.ready_addTenant (hbal : h.Balanced cfg) (ht : h.tenants t = none) :
    (h.addTenant t).Ready cfg t h.tenantSubs.length := by
  have hnone := hbal.openIn_eq_nil ht
  refine ⟨fun t' k hk => ?_, tenants_addTenant_self h t, fun t' ht' => ?_, fun k ts hts hun => ?_⟩
  · by_cases ht' : t' = t
    · subst ht'
      obtain rfl := Option.some.inj ((tenants_addTenant_self h t').symm.trans hk)
      exact ⟨_, getElem?_concat_length, balances_empty hnone⟩
    rw [tenants_addTenant_ne ht'] at hk
    obtain ⟨ts, hts, hacc⟩ := hbal.entry t' k hk
    have hlt := (List.getElem?_eq_some_iff.1 hts).1
    exact ⟨ts, (getElem?_append_left hlt).trans hts, hacc.congr rfl fun _ => rfl⟩
  · rw [tenants_addTenant_ne ht']
    exact hbal.inUse t'
  rcases Nat.lt_or_ge k h.tenantSubs.length with hlt | hge
  · have hcur := hbal.current k ts ((getElem?_append_left hlt).symm.trans hts) hun
    have hne : ts.account.tenant ≠ t := by
      intro heq
      rw [heq, ht] at hcur
      cases hcur
    rw [tenants_addTenant_ne hne, hcur]
  have hlast := (getElem?_append_right hge).symm.trans hts
  obtain ⟨hlt, -⟩ := List.getElem?_eq_some_iff.1 hlast
  obtain rfl : k = h.tenantSubs.length := by
    simp only [length_singleton] at hlt
    omega
  obtain rfl := mem_singleton.1 (mem_of_getElem? hlast)
  exact tenants_addTenant_self h t

theorem Balances.add (hacc : h.Balances cfg t acc) (hs : h'.subs = h.subs ++ [s])
    (hopen : s.port.closed = false) (ht : s.tenant = t)
    (hroom : (h.openOf t s.user).length < cfg.streamsPerUser)
    (hspace : (h.openIn t).length < cfg.streamsPerTenant) :
    h'.Balances cfg t (acc.add h.subs.length s.user) := by
  have hin : h'.openIn t = h.openIn t ++ [h.subs.length] := by
    rw [openIn, opens_append hs hopen]
    simp [openIn, ht]
  have hof : ∀ user, h'.openOf t user =
      h.openOf t user ++ if s.user = user then [h.subs.length] else [] := by
    intro user
    rw [openOf, opens_append hs hopen]
    simp [openOf, ht]
  refine ⟨hacc.tenant, hacc.uncancelled, ?_, fun user => ?_, fun user => ?_, ?_⟩
  · rw [hin, ← hacc.conns]
    rfl
  · rw [hof]
    by_cases hu : s.user = user
    · subst hu
      simp [Account.add, hacc.byUser]
    · simp [Account.add, Function.update_of_ne (Ne.symm hu), hacc.byUser, hu]
  · rw [hof]
    split
    · next hu =>
      subst hu
      rw [length_append]
      exact hroom
    · simpa using hacc.perUser user
  · rw [hin, length_append]
    exact hspace

theorem entry_of_ne {t' : Id} {k' : Nat} {ts ts' : TenantSub} (ht' : t' ≠ t)
    (hts : h.tenantSubs[k]? = some ts) (hacc : h.Balances cfg t ts.account)
    (hts' : h.tenantSubs[k']? = some ts') (hacc' : h.Balances cfg t' ts'.account) :
    (h.tenantSubs.modify k g)[k']? = some ts' := by
  have hne : k ≠ k' := by
    rintro rfl
    obtain rfl := Option.some.inj (hts.symm.trans hts')
    exact ht' (hacc'.tenant.symm.trans hacc.tenant)
  simp [hne, hts']

theorem Ready.balanced_add (hready : h.Ready cfg t k)
    (hroom : (h.openOf t s.user).length < cfg.streamsPerUser)
    (hspace : (h.openIn t).length < cfg.streamsPerTenant) (ht : s.tenant = t)
    (hopen : s.port.closed = false) (htenants : h'.tenants = h.tenants)
    (hsubs : h'.subs = h.subs ++ [s])
    (hadd : h'.tenantSubs = h.tenantSubs.modify k fun ts => { ts with account := ts.account.add h.subs.length s.user })
    : h'.Balanced cfg := by
  obtain ⟨ts, hts, hacc⟩ := hready.entry t k hready.found
  have hothers : ∀ p : Id → String → Bool, p t s.user = false → h'.opens p = h.opens p := by
    intro p hp
    rw [opens_append hsubs hopen, ht, hp]
    exact append_nil _
  refine ⟨fun t' k' hk' => ?_, fun t' => ?_, fun k' ts' hts' hun => ?_⟩
  · rw [htenants] at hk'
    by_cases ht' : t' = t
    · subst ht'
      obtain rfl := Option.some.inj (hready.found.symm.trans hk')
      refine ⟨_, by rw [hadd, getElem?_modify_eq, hts]; rfl, ?_⟩
      exact hacc.add hsubs hopen ht hroom hspace
    obtain ⟨ts', hts', hacc'⟩ := hready.entry t' k' hk'
    refine ⟨ts', hadd ▸ entry_of_ne ht' hts hacc hts' hacc', hacc'.congr ?_ fun user => ?_⟩
    · exact hothers _ (by simp [Ne.symm ht'])
    · exact hothers _ (by simp [Ne.symm ht'])
  · rw [htenants]
    by_cases ht' : t' = t
    · subst ht'
      have hmem : h.subs.length ∈ h'.openIn t' := mem_opens.2 ⟨s, by simp [hsubs], by simp [ht], hopen⟩
      exact ⟨fun _ => ne_nil_of_mem hmem, fun _ => by simp [hready.found]⟩
    · rw [openIn, hothers _ (by simp [Ne.symm ht'])]
      exact hready.inUse t' ht'
  rw [htenants]
  rw [hadd, getElem?_modify] at hts'
  obtain ⟨ts0, hts0, rfl⟩ := Option.map_eq_some_iff.1 hts'
  have hcur := hready.current k' ts0 hts0
  by_cases hk' : k = k'
  · rw [if_pos hk'] at hun ⊢
    exact hcur hun
  · rw [if_neg hk'] at hun ⊢
    exact hcur hun

theorem Ready.balanced_register (hready : h.Ready cfg t k) (huser : 0 < cfg.streamsPerUser)
    (htenant : 0 < cfg.streamsPerTenant) (user lastID : String) (now : Time) :
    (h.register cfg k t user lastID now).Balanced cfg := by
  obtain ⟨ts, hts, hacc⟩ := hready.entry t k hready.found
  simp only [register, hts]
  split
  · next hfull =>
    simp only [Bool.or_eq_true, decide_eq_true_eq] at hfull
    refine ⟨hready.entry, fun t' => ?_, hready.current⟩
    by_cases ht' : t' = t
    · subst ht'
      refine ⟨fun _ hnone => ?_, fun _ => by simp [hready.found]⟩
      rw [hacc.byUser, hacc.conns, openOf_eq_nil hnone, hnone] at hfull
      simp only [length_nil] at hfull
      omega
    · exact hready.inUse t' ht'
  rename_i hfull
  simp only [Bool.or_eq_true, decide_eq_true_eq, not_or, ge_iff_le, hacc.byUser,
    hacc.conns] at hfull
  obtain ⟨hroom, hspace⟩ := hfull
  exact hready.balanced_add (by simpa using hroom) (by simpa using hspace) rfl rfl rfl rfl rfl

/-! ### Close -/

theorem Balances.remove (hacc : h.Balances cfg t acc) (hs : h.subs[i]? = some s)
    (hopen : s.port.closed = false) (ht : s.tenant = t)
    (hsubs : h'.subs = h.subs.modify i fun s => { s with port := { s.port with closed := true } })
    (hleft : acc.conns.erase i ≠ []) : h'.Balances cfg t (acc.remove i s.user) := by
  have hin : h'.openIn t = (h.openIn t).erase i := opens_close hs _ hsubs
  have hof : ∀ user, h'.openOf t user = (h.openOf t user).erase i := fun user =>
    opens_close hs _ hsubs
  refine ⟨hacc.tenant, ?_, ?_, fun user => ?_, fun user => ?_, ?_⟩
  · simp [Account.remove, hacc.uncancelled, hleft]
  · rw [hin, ← hacc.conns]
    rfl
  · rw [hof]
    by_cases hu : s.user = user
    · subst hu
      have hmem : i ∈ h.openOf t s.user := mem_opens.2 ⟨s, hs, by simp [ht], hopen⟩
      have hpos := length_pos_of_mem hmem
      rw [length_erase_of_mem hmem]
      simp only [Account.remove, Function.update_self, hacc.byUser]
      split <;> omega
    have hmem : i ∉ h.openOf t user := by
      intro hmem
      obtain ⟨s', hs', hp, -⟩ := mem_opens.1 hmem
      obtain rfl := Option.some.inj (hs.symm.trans hs')
      simp [hu] at hp
    rw [erase_of_not_mem hmem]
    simp only [Account.remove, Function.update_of_ne (Ne.symm hu), hacc.byUser]
  · rw [hof]
    exact Nat.le_trans length_erase_le (hacc.perUser user)
  · rw [hin]
    exact Nat.le_trans length_erase_le hacc.perTenant

theorem Balanced.balanced_remove {ts : TenantSub} (hbal : h.Balanced cfg) (hs : h.subs[i]? = some s)
    (hopen : s.port.closed = false) (hk : h.tenants s.tenant = some k)
    (hts : h.tenantSubs[k]? = some ts)
    (hsubs : h'.subs = h.subs.modify i fun s => { s with port := { s.port with closed := true } })
    (hremove : h'.tenantSubs = h.tenantSubs.modify k fun ts => { ts with account := ts.account.remove i s.user })
    (hentry : h'.tenants = if (ts.account.conns.erase i).isEmpty then Function.update h.tenants s.tenant none else h.tenants)
    : h'.Balanced cfg := by
  have hacc : h.Balances cfg s.tenant ts.account := by
    obtain ⟨ts', hts', hacc⟩ := hbal.entry s.tenant k hk
    exact Option.some.inj (hts.symm.trans hts') ▸ hacc
  have hne : ∀ t', t' ≠ s.tenant → h'.tenants t' = h.tenants t' := by
    intro t' ht'
    rw [hentry]
    split
    · exact Function.update_of_ne ht' ..
    · rfl
  have hothers : ∀ p : Id → String → Bool, p s.tenant s.user = false → h'.opens p = h.opens p := by
    intro p hp
    rw [opens_close hs p hsubs]
    refine erase_of_not_mem fun hmem => ?_
    obtain ⟨s', hs', hp', -⟩ := mem_opens.1 hmem
    obtain rfl := Option.some.inj (hs.symm.trans hs')
    rw [hp] at hp'
    cases hp'
  have hleft : h'.openIn s.tenant = ts.account.conns.erase i := by
    rw [openIn, opens_close hs _ hsubs, hacc.conns]
    rfl
  refine ⟨fun t' k' hk' => ?_, fun t' => ?_, fun k' ts' hts' hun => ?_⟩
  · by_cases ht' : t' = s.tenant
    · -- the entry is there still, so a subscription is left
      subst ht'
      rw [hentry] at hk'
      split at hk'
      · rw [Function.update_self] at hk'
        cases hk'
      rename_i hsome
      obtain rfl := Option.some.inj (hk.symm.trans hk')
      refine ⟨_, by rw [hremove, getElem?_modify_eq, hts]; rfl, ?_⟩
      exact hacc.remove hs hopen rfl hsubs fun hnil => hsome (by rw [hnil]; rfl)
    · rw [hne t' ht'] at hk'
      obtain ⟨ts', hts', hacc'⟩ := hbal.entry t' k' hk'
      refine ⟨ts', hremove ▸ entry_of_ne ht' hts hacc hts' hacc', hacc'.congr ?_ fun user => ?_⟩
      · exact hothers _ (by simp [Ne.symm ht'])
      · exact hothers _ (by simp [Ne.symm ht'])
  · by_cases ht' : t' = s.tenant
    · subst ht'
      rw [hleft, hentry]
      split
      · next hnil => simp [List.isEmpty_iff.1 hnil]
      · next hsome => simp [hk, List.isEmpty_iff.not.1 hsome]
    · rw [hne t' ht', openIn, hothers _ (by simp [Ne.symm ht'])]
      exact hbal.inUse t'
  rw [hremove, getElem?_modify] at hts'
  obtain ⟨ts0, hts0, rfl⟩ := Option.map_eq_some_iff.1 hts'
  by_cases hk' : k = k'
  · subst hk'
    obtain rfl := Option.some.inj (hts.symm.trans hts0)
    simp only [if_true, Account.remove, Bool.or_eq_false_iff] at hun ⊢
    rw [hentry, hacc.tenant, if_neg (by simp [hun.2]), hk]
  rw [if_neg hk'] at hun ⊢
  have hcur := hbal.current k' ts0 hts0 hun
  rw [hne, hcur]
  intro heq
  rw [heq, hk] at hcur
  exact hk' (Option.some.inj hcur)

theorem Balanced.balanced_unregister (hbal : h.Balanced cfg) (hs : h.subs[i]? = some s)
    (hopen : s.port.closed = false) : (h.unregister i s).Balanced cfg := by
  -- an open subscription has an entry
  have hmem : i ∈ h.openIn s.tenant := mem_opens.2 ⟨s, hs, by simp, hopen⟩
  obtain ⟨k, hk⟩ := Option.ne_none_iff_exists'.1 ((hbal.inUse s.tenant).2 (ne_nil_of_mem hmem))
  obtain ⟨ts, hts, -⟩ := hbal.entry s.tenant k hk
  refine hbal.balanced_remove hs hopen hk hts ?_ ?_ ?_ <;> simp only [unregister, hk, hts] <;> split <;>
    rfl

/-! ## Every state -/

theorem balanced_step (huser : 0 < cfg.streamsPerUser) (htenant : 0 < cfg.streamsPerTenant)
    (a : HubAction) (hbal : h.Balanced cfg) : (h.step cfg a).Balanced cfg := by
  by_cases ha : Books a
  · cases a with
    | subscribe t user lastID now xlast =>
      simp only [step]
      split
      · exact hbal
      split
      · next k hk => exact (hbal.ready hk).balanced_register huser htenant user lastID now
      rename_i hk
      split
      · exact (hbal.ready_addTenant hk).balanced_register huser htenant user lastID now
      · exact hbal
    | close i =>
      simp only [step]
      split
      · next s hs =>
        split
        · exact hbal
        · next hopen => exact hbal.balanced_unregister hs (Bool.not_eq_true _ |>.mp hopen)
      · exact hbal
    | _ => exact ha.elim
  · exact hbal.congr (leaves_step ha).toSameBooks

theorem EndsCancelled.addTenant (hends : h.EndsCancelled) (t : Id) :
    (h.addTenant t).EndsCancelled := by
  intro ts hts
  rcases mem_append.1 hts with hts | hts
  · exact hends ts hts
  obtain rfl := mem_singleton.1 hts
  intro hended
  cases hended

theorem EndsCancelled.register (hends : h.EndsCancelled) (t : Id) (user lastID : String)
    (now : Time) : (h.register cfg k t user lastID now).EndsCancelled := by
  unfold Hub.register
  split
  · exact hends
  split
  · exact hends
  · exact hends.modify (k := k) rfl rfl fun ts _ hold => hold

theorem EndsCancelled.unregister (hends : h.EndsCancelled) (i : Nat) (s : Subscription) :
    (h.unregister i s).EndsCancelled := by
  have hremove : ∀ ts : TenantSub, (ts.ended = true → ts.account.cancelled = true ∨ h.done = true) →
      ts.ended = true → (ts.account.remove i s.user).cancelled = true ∨ h.done = true := by
    intro ts hold hended
    simp only [Account.remove, Bool.or_eq_true]
    exact (hold hended).imp_left .inl
  unfold Hub.unregister
  dsimp only
  split
  · exact hends
  rename_i k _
  split
  · exact hends
  · split <;> exact hends.modify (k := k) rfl rfl fun ts _ => hremove ts

theorem endsCancelled_step (a : HubAction) (hends : h.EndsCancelled) :
    (h.step cfg a).EndsCancelled := by
  by_cases ha : Books a
  · cases a with
    | subscribe t user lastID now xlast =>
      simp only [step]
      split
      · exact hends
      split
      · exact hends.register t user lastID now
      split
      · exact (hends.addTenant t).register t user lastID now
      · exact hends
    | close i =>
      simp only [step]
      split
      · next s _ =>
        split
        · exact hends
        · exact hends.unregister i s
      · exact hends
    | _ => exact ha.elim
  · exact (leaves_step ha).ends hends

/-! ### What follows from the invariant -/

theorem Balanced.balances (hbal : h.Balanced cfg) (t : Id) :
    ∃ acc, h.Balances cfg t acc ∧ ∀ user, h.counter t user = acc.byUser user := by
  cases hk : h.tenants t with
  | none =>
    exact ⟨_, balances_empty (hbal.openIn_eq_nil hk), fun user => by rw [counter, hk]; rfl⟩
  | some k =>
    obtain ⟨ts, hts, hacc⟩ := hbal.entry t k hk
    exact ⟨ts.account, hacc, fun user => by simp [counter, hk, hts]⟩

theorem Balanced.existsUnique_reads (hbal : h.Balanced cfg) (hends : h.EndsCancelled)
    (hdone : h.done = false) (ht : (h.tenants t).isSome = true) : ∃! k, h.Reads t k := by
  obtain ⟨k, hk⟩ := Option.isSome_iff_exists.1 ht
  obtain ⟨ts, hts, hacc⟩ := hbal.entry t k hk
  have hrunning : ts.ended = false := by
    by_contra hended
    rcases hends ts (mem_of_getElem? hts) (Bool.not_eq_false _ |>.mp hended) with hc | hd
    · rw [hacc.uncancelled] at hc
      cases hc
    · rw [hdone] at hd
      cases hd
  refine ⟨k, ⟨ts, hts, hacc.tenant, hacc.uncancelled, hrunning⟩, ?_⟩
  rintro k' ⟨ts', hts', rfl, hun, -⟩
  have hcur := hbal.current k' ts' hts' hun
  exact Option.some.inj (hcur.symm.trans hk)

end Hub

/-! `NewHub` leaves no limit that is not positive. -/

theorem Config.streamsPerUser_pos (c : Config) : 0 < c.bounds.streamsPerUser := by
  unfold Config.bounds
  dsimp only
  split <;> omega

theorem Config.streamsPerTenant_pos (c : Config) : 0 < c.bounds.streamsPerTenant := by
  unfold Config.bounds
  dsimp only
  split <;> omega

namespace Hub

/-- The counters are the numbers of open subscriptions and stay within the limits, a tenant has an
entry as long as it has an open subscription, and until the hub is closed the entry has exactly
one loop that reads. -/
theorem accounts_balanced (c : Config) (streams : Id → List Entry) (as : List HubAction) :
    let h := Machine.run (step c.bounds) (Hub.new streams) as
    (∀ t user, h.counter t user = (h.openOf t user).length) ∧
      (∀ t user, h.counter t user ≤ c.bounds.streamsPerUser) ∧
      (∀ t, (h.openIn t).length ≤ c.bounds.streamsPerTenant) ∧
      (∀ t, (h.tenants t).isSome ↔ h.openIn t ≠ []) ∧
      (h.done = false → ∀ t, (h.tenants t).isSome → ∃! k, h.Reads t k) := by
  intro h
  have hmeets : Machine.Meets (step c.bounds) (fun _ _ => True) (Hub.new streams) as :=
    Machine.meets_of_forall (fun _ _ _ => trivial) _
  have hbal : h.Balanced c.bounds := Machine.run_inv (I := fun h => h.Balanced c.bounds)
    (fun _ a _ => balanced_step c.streamsPerUser_pos c.streamsPerTenant_pos a)
    (balanced_new c.bounds streams) hmeets
  have hends : h.EndsCancelled := Machine.run_inv (I := EndsCancelled)
    (fun _ a _ => endsCancelled_step a) (fun _ hts => by cases hts) hmeets
  have hcount : ∀ t user, h.counter t user = (h.openOf t user).length := by
    intro t user
    obtain ⟨acc, hacc, hcounter⟩ := hbal.balances t
    rw [hcounter, hacc.byUser]
  refine ⟨hcount, fun t user => ?_, fun t => ?_, fun t => ?_, fun hdone t ht => ?_⟩
  · obtain ⟨acc, hacc, -⟩ := hbal.balances t
    rw [hcount]
    exact_mod_cast hacc.perUser user
  · obtain ⟨acc, hacc, -⟩ := hbal.balances t
    exact hacc.perTenant
  · rw [Option.isSome_iff_ne_none]
    exact hbal.inUse t
  · exact hbal.existsUnique_reads hends hdone ht

end Hub

end Lcm.Stream
