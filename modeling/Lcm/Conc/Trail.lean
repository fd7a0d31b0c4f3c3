import Lcm.Conc.Pool

/-!
# Threads along a run

A monitor knows a thread by its events alone and meets any store. Along one given run more can
be said: each step of the thread has its place in the schedule, and the store it meets is the
one the run has reached there. So what a thread has read is a fact about an earlier store of
the run, and what holds of all the stores may be used at every step.

* `Prog.Along`: every step of the program, wherever in the run it is made, is as `ok` says, from
  the trail the steps before have left.
* `Conduct`: what is asked of the calls of a run.
* `Conduct.follows_place`, `Conduct.moved_place`: if every body keeps to its conduct, every thread
  of the run has, and an act does nothing to the store that the conduct does not allow.
-/

namespace Conc

open List Config

variable {ι σ ε κ ρ α β : Type}

/-- The events of a thread, each with the place of its step in the schedule. -/
abbrev Trail (ε : Type) := List (Nat × ε)

namespace Prog

section Along

variable (may : Nat → ι → σ → Prop) (ok : Trail ε → Nat → ι → σ → ε → σ → Prop)

/-- From the trail `h`, and from place `n` on, every step of the program is as `ok` says, if it is
made at a place `m` under a choice and in a store that `may` be met there; and the program returns
only with `Q`. It starts no call. -/
def Along : Prog ι σ ε κ α → (Trail ε → Nat → α → Prop) → Trail ε → Nat → Prop
  | ret a, Q, h, n => Q h n a
  | step act next, Q, h, n => ∀ m i s, n ≤ m → may m i s →
      ok h m i s (act i s).2 (act i s).1 ∧
        (next i s).Along Q (h ++ [(m, (act i s).2)]) (m + 1)
  | fork _ _, _, _, _ => False

variable {may ok} {h : Trail ε} {n : Nat}

theorem along_bind (p : Prog ι σ ε κ α) (f : α → Prog ι σ ε κ β) (Q : Trail ε → Nat → β → Prop) :
    (p.bind f).Along may ok Q h n ↔
      p.Along may ok (fun h n a => (f a).Along may ok Q h n) h n := by
  induction p generalizing h n with
  | ret a => rfl
  | step act next ih =>
    constructor
    · intro hp m i s hm hmay
      exact ⟨(hp m i s hm hmay).1, (ih i s).1 (hp m i s hm hmay).2⟩
    · intro hp m i s hm hmay
      exact ⟨(hp m i s hm hmay).1, (ih i s).2 (hp m i s hm hmay).2⟩
  | fork c next ih => rfl

theorem Along.mono {p : Prog ι σ ε κ α} {Q R : Trail ε → Nat → α → Prop}
    (hQR : ∀ h n a, Q h n a → R h n a) (hp : p.Along may ok Q h n) : p.Along may ok R h n := by
  induction p generalizing h n with
  | ret a => exact hQR h n a hp
  | step act next ih =>
    intro m i s hm hmay
    exact ⟨(hp m i s hm hmay).1, ih i s (hp m i s hm hmay).2⟩
  | fork c next ih => exact hp

theorem Along.grow {p : Prog ι σ ε κ α} {Q : Trail ε → Nat → α → Prop}
    (hp : p.Along may ok Q h n) :
    p.Along may ok (fun h' n' a => h <+: h' ∧ n ≤ n' ∧ Q h' n' a) h n := by
  induction p generalizing h n with
  | ret a => exact ⟨prefix_refl h, Nat.le_refl n, hp⟩
  | step act next ih =>
    intro m i s hm hmay
    refine ⟨(hp m i s hm hmay).1, (ih i s (hp m i s hm hmay).2).mono ?_⟩
    rintro h' n' a ⟨hh, hn, hQ⟩
    exact ⟨(prefix_append h _).trans hh, by omega, hQ⟩
  | fork c next ih => exact hp

theorem Along.later {p : Prog ι σ ε κ α} {Q : Trail ε → Nat → α → Prop}
    (hQ : ∀ h n n' a, n ≤ n' → Q h n a → Q h n' a) (hp : p.Along may ok Q h n) {n' : Nat}
    (hn : n ≤ n') : p.Along may ok Q h n' := by
  cases p with
  | ret a => exact hQ h n n' a hn hp
  | step act next => exact fun m i s hm hmay => hp m i s (Nat.le_trans hn hm) hmay
  | fork c next => exact hp

theorem Quiet.along {q : ε → Prop} {p : Prog ι σ ε κ α} (hp : p.Quiet q)
    (hok : ∀ h m i s ev, q ev → may m i s → ok h m i s ev s) {R : α → Prop} (hR : p.Yields R) :
    p.Along may ok (fun h' _ a => (∀ x ∈ h', x ∈ h ∨ q x.2) ∧ R a) h n := by
  induction p generalizing h n with
  | ret a => exact ⟨fun x hx => .inl hx, hR⟩
  | step act next ih =>
    intro m i s _ hmay
    obtain ⟨hs, hq, hn⟩ := hp i s
    rw [hs]
    refine ⟨hok h m i s _ hq hmay, (ih i s hn (hR i s)).mono ?_⟩
    rintro h' n' a ⟨hnew, ha⟩
    refine ⟨fun x hx => ?_, ha⟩
    rcases hnew x hx with hx | hx
    · rcases mem_append.1 hx with hx | hx
      · exact .inl hx
      · obtain rfl := mem_singleton.1 hx
        exact .inr hq
    · exact .inr hx
  | fork c next ih => exact hp.elim

end Along

end Prog

/-! ## Runs -/

namespace Config

variable (body : κ → Prog ι σ ε κ ρ)

/-- The configuration in which the act at place `n` is made. -/
def place (cfg : Config ι σ ε κ ρ) (as : List (Act ι κ)) (n : Nat) : Config ι σ ε κ ρ :=
  cfg.exec body (as.take n)

theorem place_succ (cfg : Config ι σ ε κ ρ) {as : List (Act ι κ)} {n : Nat} {a : Act ι κ}
    (ha : as[n]? = some a) :
    cfg.place body as (n + 1) = (cfg.place body as n).apply body a := by
  unfold place
  rw [take_add_one, ha, exec_append]
  rfl

theorem place_succ_of_none (cfg : Config ι σ ε κ ρ) {as : List (Act ι κ)} {n : Nat}
    (ha : as[n]? = none) : cfg.place body as (n + 1) = cfg.place body as n := by
  have hlen : as.length ≤ n := List.getElem?_eq_none_iff.1 ha
  unfold place
  rw [take_of_length_le hlen, take_of_length_le (Nat.le_succ_of_le hlen)]

theorem length_threads_place (cfg : Config ι σ ε κ ρ) (as : List (Act ι κ)) {m n : Nat}
    (h : m ≤ n) : (cfg.place body as m).threads.length ≤ (cfg.place body as n).threads.length := by
  induction h with
  | refl => exact Nat.le_refl _
  | @step n _ ih =>
    cases ha : as[n]? with
    | none => rwa [cfg.place_succ_of_none body ha]
    | some a =>
      rw [cfg.place_succ body ha]
      refine Nat.le_trans ih ?_
      cases a with
      | spawn c => simp [apply]
      | run i e =>
        simp only [apply]
        split <;> simp

/-- The events that the threads have emitted. -/
def events (cfg : Config ι σ ε κ ρ) : List ε := cfg.threads.flatMap fun t => t.hist

theorem mem_events_of_emits {cfg : Config ι σ ε κ ρ} {i : Nat} {e : ι} {ev : ε}
    (h : cfg.emits i e = some ev) : ev ∈ (cfg.apply body (.run i e)).events := by
  unfold emits at h
  split at h
  · next t act next ht =>
    cases h
    have hlt : i < cfg.threads.length := (List.getElem?_eq_some_iff.1 ht).1
    simp only [apply, ht, events]
    exact mem_flatMap.2 ⟨_, mem_set hlt _, by simp⟩
  · cases h

theorem mem_events_apply {cfg : Config ι σ ε κ ρ} {ev : ε} (h : ev ∈ cfg.events) (a : Act ι κ) :
    ev ∈ (cfg.apply body a).events := by
  obtain ⟨t, ht, hev⟩ := mem_flatMap.1 h
  cases a with
  | spawn c => exact mem_flatMap.2 ⟨t, mem_append_left _ ht, hev⟩
  | run i e =>
    -- the thread that makes the step keeps what it has emitted
    have hset : ∀ t' u, cfg.threads[i]? = some t' → (∀ x ∈ t'.hist, x ∈ u.hist) →
        ∃ v ∈ cfg.threads.set i u, ev ∈ v.hist := by
      intro t' u ht' hu
      have hlt : i < cfg.threads.length := (List.getElem?_eq_some_iff.1 ht').1
      obtain ⟨j, hj⟩ := mem_iff_getElem?.1 ht
      by_cases hij : i = j
      · subst hij
        rw [hj] at ht'
        cases ht'
        exact ⟨u, mem_set hlt u, hu ev hev⟩
      refine ⟨t, mem_of_getElem? (i := j) ?_, hev⟩
      rw [getElem?_set_ne hij]
      exact hj
    simp only [apply]
    split
    · exact h
    · exact h
    · next u act next hu =>
      refine mem_flatMap.2 (hset _ _ hu fun x hx => ?_)
      exact mem_append_left _ hx
    rename_i u c next hu
    obtain ⟨v, hv, hin⟩ := hset _ ⟨u, next⟩ hu fun x hx => hx
    exact mem_flatMap.2 ⟨v, mem_append_left _ hv, hin⟩

theorem mem_events_place {cfg : Config ι σ ε κ ρ} {as : List (Act ι κ)} {m n : Nat} {ev : ε}
    (hmn : m ≤ n) (h : ev ∈ (cfg.place body as m).events) : ev ∈ (cfg.place body as n).events := by
  induction hmn with
  | refl => exact h
  | @step n _ ih =>
    cases ha : as[n]? with
    | none => rwa [cfg.place_succ_of_none body ha]
    | some a =>
      rw [cfg.place_succ body ha]
      exact mem_events_apply body ih a

theorem Meets.place {cond : Config ι σ ε κ ρ → Act ι κ → Prop} {cfg : Config ι σ ε κ ρ}
    {as : List (Act ι κ)} (h : cfg.Meets body cond as) {n : Nat} {a : Act ι κ}
    (ha : as[n]? = some a) : cond (cfg.place body as n) a := by
  obtain ⟨hn, rfl⟩ := List.getElem?_eq_some_iff.1 ha
  rw [← take_append_drop n as, drop_eq_getElem_cons hn, meets_append] at h
  exact h.2.1

theorem place_succ_of_absent (cfg : Config ι σ ε κ ρ) {as : List (Act ι κ)} {n j : Nat} {i : ι}
    (ha : as[n]? = some (.run j i)) (hj : (cfg.place body as n).threads[j]? = none) :
    cfg.place body as (n + 1) = cfg.place body as n := by
  rw [cfg.place_succ body ha, apply, hj]

end Config

/-- What is asked of the calls of a run: which calls there are, what may be met at a place of the
run, what a step has to be like, and what the call returns with. -/
structure Conduct (ι σ ε κ ρ : Type) where
  ops : κ → Prop
  may : Nat → ι → σ → Prop
  ok : κ → Trail ε → Nat → ι → σ → ε → σ → Prop
  post : κ → Trail ε → ρ → Prop

namespace Conduct

variable (C : Conduct ι σ ε κ ρ) (body : κ → Prog ι σ ε κ ρ)

/-- Every call keeps to its conduct, whenever it begins. -/
def Sound : Prop :=
  ∀ c, C.ops c → ∀ n, (body c).Along C.may (C.ok c) (fun h _ r => C.post c h r) [] n

/-- The trail of thread `j` up to place `n` of the run `as`: all its steps, each as it has to be. -/
structure Trailed (cfg : Config ι σ ε κ ρ) (as : List (Act ι κ)) (n j : Nat) (c : κ)
    (h : Trail ε) : Prop where
  early : ∀ x ∈ h, x.1 < n
  steps : ∀ h₁ m ev h₂, h = h₁ ++ (m, ev) :: h₂ → (∀ x ∈ h₁, x.1 < m) ∧
    ∃ i, as[m]? = some (.run j i) ∧
      (∃ t, (cfg.place body as m).threads[j]? = some t ∧ t.call = c) ∧
      (cfg.place body as m).emits j i = some ev ∧
      C.ok c h₁ m i (cfg.place body as m).store ev (cfg.place body as (m + 1)).store
  complete : ∀ m i, m < n → as[m]? = some (.run j i) →
    (∃ ev, (m, ev) ∈ h) ∨ (cfg.place body as (m + 1)).store = (cfg.place body as m).store

/-- Thread `j` has kept to its conduct up to place `n` and will from there on. -/
def Follows (cfg : Config ι σ ε κ ρ) (as : List (Act ι κ)) (n j : Nat)
    (t : Thread ι σ ε κ ρ) : Prop :=
  C.ops t.call ∧ ∃ h : Trail ε, h.map Prod.snd = t.hist ∧ C.Trailed body cfg as n j t.call h ∧
    t.prog.Along C.may (C.ok t.call) (fun h _ r => C.post t.call h r) h n

variable {C body} {cfg : Config ι σ ε κ ρ} {as : List (Act ι κ)} {n j : Nat}

theorem Trailed.later {c : κ} {h : Trail ε} (hT : C.Trailed body cfg as n j c h)
    (hidle : ∀ i, as[n]? = some (.run j i) →
      (cfg.place body as (n + 1)).store = (cfg.place body as n).store) :
    C.Trailed body cfg as (n + 1) j c h := by
  refine ⟨fun x hx => Nat.lt_succ_of_lt (hT.early x hx), hT.steps, ?_⟩
  intro m i hm ha
  rcases Nat.lt_succ_iff_lt_or_eq.1 hm with hm | rfl
  · exact hT.complete m i hm ha
  · exact .inr (hidle i ha)

theorem Trailed.push {c : κ} {h : Trail ε} (hT : C.Trailed body cfg as n j c h) {i : ι} {ev : ε}
    (ha : as[n]? = some (.run j i))
    (hcall : ∃ t, (cfg.place body as n).threads[j]? = some t ∧ t.call = c)
    (hem : (cfg.place body as n).emits j i = some ev)
    (hok : C.ok c h n i (cfg.place body as n).store ev (cfg.place body as (n + 1)).store) :
    C.Trailed body cfg as (n + 1) j c (h ++ [(n, ev)]) := by
  refine ⟨?_, ?_, ?_⟩
  · intro x hx
    rcases mem_append.1 hx with hx | hx
    · exact Nat.lt_succ_of_lt (hT.early x hx)
    · obtain rfl := mem_singleton.1 hx
      exact Nat.lt_succ_self n
  · intro h1 m ev' h2 heq
    rcases eq_nil_or_concat h2 with rfl | ⟨h3, y, rfl⟩
    · obtain ⟨rfl, hlast⟩ := append_inj' heq rfl
      cases hlast
      exact ⟨hT.early, i, ha, hcall, hem, hok⟩
    · rw [concat_eq_append, ← cons_append, ← append_assoc] at heq
      exact hT.steps h1 m ev' h3 (append_inj' heq rfl).1
  intro m i' hm ha'
  rcases Nat.lt_succ_iff_lt_or_eq.1 hm with hm | rfl
  · rcases hT.complete m i' hm ha' with ⟨ev', hev'⟩ | hidle
    · exact .inl ⟨ev', mem_append_left _ hev'⟩
    · exact .inr hidle
  · exact .inl ⟨ev, by simp⟩

theorem trailed_nil (c : κ) (hj : (cfg.place body as n).threads.length ≤ j) :
    C.Trailed body cfg as n j c [] := by
  refine ⟨?_, ?_, ?_⟩
  · intro x hx
    cases hx
  · intro h1 m ev h2 heq
    simp at heq
  intro m i hm ha
  have hlen := cfg.length_threads_place body as (Nat.le_of_lt hm)
  have habs : (cfg.place body as m).threads[j]? = none :=
    getElem?_eq_none (Nat.le_trans hlen hj)
  exact .inr (by rw [cfg.place_succ_of_absent body ha habs])

theorem Follows.later {t : Thread ι σ ε κ ρ} (hF : C.Follows body cfg as n j t)
    (hidle : ∀ i, as[n]? = some (.run j i) →
      (cfg.place body as (n + 1)).store = (cfg.place body as n).store) :
    C.Follows body cfg as (n + 1) j t := by
  obtain ⟨hop, h, hmap, hT, hA⟩ := hF
  exact ⟨hop, h, hmap, hT.later hidle,
    hA.later (fun _ _ _ _ _ hpost => hpost) (Nat.le_succ n)⟩

section Runs

variable (hC : C.Sound body)
  (hmay : ∀ n j i, as[n]? = some (.run j i) → C.may n i (cfg.place body as n).store)
  (hthreads : cfg.threads = []) (hcalls : ∀ a ∈ as, a.Calls C.ops)

include hC hmay hthreads hcalls

theorem follows_place (hn : n ≤ as.length)
    {t : Thread ι σ ε κ ρ} (ht : (cfg.place body as n).threads[j]? = some t) :
    C.Follows body cfg as n j t := by
  induction n generalizing j t with
  | zero =>
    simp [place, hthreads] at ht
  | succ n ih =>
    have hF := fun j t => @ih j (Nat.le_of_succ_le hn) t
    obtain ⟨a, ha⟩ : ∃ a, as[n]? = some a := ⟨as[n], getElem?_eq_getElem hn⟩
    have hsucc := cfg.place_succ body ha
    -- an act that changes nothing
    have hidle : cfg.place body as (n + 1) = cfg.place body as n →
        C.Follows body cfg as (n + 1) j t := by
      intro hid
      rw [hid] at ht
      exact (hF j t ht).later fun _ _ => by rw [hid]
    cases a with
    | spawn c =>
      have hstay : ∀ i, as[n]? = some (.run j i) →
          (cfg.place body as (n + 1)).store = (cfg.place body as n).store := by
        intro i hrun
        rw [ha] at hrun
        cases hrun
      rw [hsucc, apply, getElem?_append] at ht
      split at ht
      · exact (hF j t ht).later hstay
      rename_i hj
      obtain rfl := mem_singleton.1 (mem_of_getElem? ht)
      have hop : C.ops c := hcalls _ (mem_of_getElem? ha)
      have hnew : C.Trailed body cfg as n j c [] := trailed_nil c (Nat.not_lt.1 hj)
      exact ⟨hop, [], rfl, hnew.later hstay, hC c hop (n + 1)⟩
    | run k i =>
      cases hk : (cfg.place body as n).threads[k]? with
      | none => exact hidle (cfg.place_succ_of_absent body ha hk)
      | some u =>
        obtain ⟨u, p⟩ := u
        cases p with
        | ret r => exact hidle (by rw [hsucc, apply, hk])
        | fork c next =>
          obtain ⟨-, h, -, -, hA⟩ := hF k _ hk
          exact hA.elim
        | step act next =>
          obtain ⟨hop, h, hmap, hT, hA⟩ := hF k _ hk
          obtain ⟨hok, hrest⟩ := hA n i _ (Nat.le_refl n) (hmay n k i ha)
          rw [apply, hk] at hsucc
          have hstore : (cfg.place body as (n + 1)).store
              = (act i (cfg.place body as n).store).1 := by rw [hsucc]
          rw [← hstore] at hok
          rw [hsucc] at ht
          rcases getElem?_set_cases ht with ⟨rfl, rfl⟩ | ⟨hne, ht⟩
          · have hem : (cfg.place body as n).emits j i
                = some (act i (cfg.place body as n).store).2 := by simp [emits, hk]
            refine ⟨hop, _, ?_, hT.push ha ⟨_, hk, rfl⟩ hem hok, hrest⟩
            rw [map_append, hmap]
            rfl
          refine (hF j t ht).later fun i' hrun => ?_
          rw [ha] at hrun
          cases hrun
          exact absurd rfl hne

/-- What the act at a place does: nothing to the store, or a thread makes a step that its conduct
allows. -/
theorem moved_place (hn : n < as.length) :
    (cfg.place body as (n + 1)).store = (cfg.place body as n).store ∨
      ∃ j i t ev h, as[n]? = some (.run j i) ∧ (cfg.place body as n).threads[j]? = some t ∧
        C.ops t.call ∧ (cfg.place body as n).emits j i = some ev ∧
        C.Trailed body cfg as n j t.call h ∧
        C.ok t.call h n i (cfg.place body as n).store ev (cfg.place body as (n + 1)).store := by
  obtain ⟨a, ha⟩ : ∃ a, as[n]? = some a := ⟨as[n], getElem?_eq_getElem hn⟩
  have hsucc := cfg.place_succ body ha
  cases a with
  | spawn c => exact .inl (by rw [hsucc, apply])
  | run j i =>
    cases hj : (cfg.place body as n).threads[j]? with
    | none => exact .inl (by rw [cfg.place_succ_of_absent body ha hj])
    | some t =>
      obtain ⟨hop, h, -, hT, hA⟩ :=
        follows_place hC hmay hthreads hcalls (Nat.le_of_lt hn) hj
      obtain ⟨u, p⟩ := t
      rw [apply, hj] at hsucc
      cases p with
      | ret r | fork c next => exact .inl (by rw [hsucc])
      | step act next =>
        have hok := (hA n i _ (Nat.le_refl n) (hmay n j i ha)).1
        refine .inr ⟨j, i, _, (act i (cfg.place body as n).store).2, h, ha, hj, hop, ?_, hT, ?_⟩
        · simp [emits, hj]
        · rw [hsucc]
          exact hok

end Runs

theorem Trailed.before {c : κ} {h h1 h2 : Trail ε} {m : Nat} {ev : ε}
    (hT : C.Trailed body cfg as n j c h) (heq : h = h1 ++ (m, ev) :: h2) :
    C.Trailed body cfg as m j c h1 := by
  have hm : m < n := hT.early (m, ev) (by rw [heq]; simp)
  refine ⟨(hT.steps h1 m ev h2 heq).1, ?_, ?_⟩
  · rintro h3 m' ev' h4 rfl
    exact hT.steps h3 m' ev' (h4 ++ (m, ev) :: h2) (by rw [heq]; simp)
  intro m' i hm' ha
  rcases hT.complete m' i (Nat.lt_trans hm' hm) ha with ⟨ev', hev'⟩ | hidle
  · left
    refine ⟨ev', ?_⟩
    rw [heq] at hev'
    rcases mem_append.1 hev' with hin | hin
    · exact hin
    · -- the steps after `m` are made later
      exfalso
      rcases mem_cons.1 hin with hin | hin
      · cases hin
        exact Nat.lt_irrefl _ hm'
      obtain ⟨h3, h4, rfl⟩ := append_of_mem hin
      have hlt := (hT.steps (h1 ++ (m, ev) :: h3) m' ev' h4 (by rw [heq]; simp)).1 (m, ev)
        (by simp)
      exact Nat.lt_irrefl _ (Nat.lt_trans hm' hlt)
  · exact .inr hidle

end Conduct

end Conc
