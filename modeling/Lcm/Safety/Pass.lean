import Lcm.System
import Mathlib.Tactic.Linarith

/-!
# Does a renewal pass miss a certificate?

`RunOnce` asks the store for the certificates that expire within the longest window a certificate
can have, soonest first and at most 256 of them, and keeps those that are due. The longest window is
computed from the longest lifetime `Issue` grants; an imported certificate may have a longer one. And
certificates that are not due count against the 256.

* `in_scan_of_lifetime`: no certificate that `Issue` could have made is due outside the scan.
* `pass_exact_iff`: which passes renew just the certificates that are due.
* `pass_misses_import`: a pass that misses an imported certificate.
-/

namespace Lcm

open Conc Db Svc Renew List

/-- The certificate is live, renews automatically, has not expired, and is due. -/
def IsDue (P : Platform) (now : Time) (c : IssuedCertificate) : Bool :=
  (c.status == .active || c.status == .expiring) && c.supersededBy.isNone && c.autoRenew &&
    decide (now < c.notAfter) && due P c now

/-- What the steps of a pass find: first the clock, then the store it scans, then for each
certificate whether to go on. -/
abbrev Worlds := Nat → Env × Database

namespace Worlds

/-- The clock of the pass. -/
def now (w : Worlds) : Time := (w 0).1.clock

/-- The certificates in the store it scans. -/
def certificates (w : Worlds) : List IssuedCertificate := (w 1).2.certificates.rows

/-- The same, with another order of certificates that expire together. -/
def withTie (w : Worlds) (tie : Id → Nat) : Worlds := fun n => ({ (w n).1 with tie }, (w n).2)

end Worlds

def dueNow (P : Platform) (w : Worlds) : List IssuedCertificate :=
  w.certificates.filter (IsDue P w.now)

def inScan (P : Platform) (w : Worlds) : List IssuedCertificate :=
  w.certificates.filter (Sql.DueBy w.now (w.now + maxWindow P))

/-- The pass attempts to renew every due certificate, once, and no other. -/
def RenewsExactly (P : Platform) (w : Worlds) : Prop :=
  ((body P .runOnce).run.starts w 0).Perm ((dueNow P w).map Call.renewOne)

/-- Every due certificate is within reach of the scan and the pass is not cut short. -/
structure Complete (P : Platform) (w : Worlds) : Prop where
  /-- it expires within the longest window -/
  window : ∀ c ∈ dueNow P w, c.notAfter ≤ w.now + maxWindow P
  /-- at most 256 certificates of the scan, with itself, expire no later -/
  batch : ∀ c ∈ dueNow P w,
    ((inScan P w).filter fun x => decide (x.notAfter ≤ c.notAfter)).length ≤ maxBatch
  /-- the query does not fail -/
  answered : dueNow P w ≠ [] → (w 1).1.fault = .ok
  /-- the context does not end before the last of them -/
  goesOn : ∀ j < (dueNow P w).length, (w (2 + j)).1.cancelled = false

namespace Pass

variable {P : Platform} {w : Worlds}

/-! ## The longest window -/

section Window

variable {c : IssuedCertificate}

theorem scale_mono {d d' : Duration} {f : Rat} (hf : 0 ≤ f) (h : d ≤ d') : scale d f ≤ scale d' f := by
  unfold scale
  refine Int.floor_mono (mul_le_mul_of_nonneg_right ?_ hf)
  exact_mod_cast h

theorem scale_le_self {d : Duration} {f : Rat} (hd : 0 ≤ d) (hf : f ≤ 1) : scale d f ≤ d := by
  have hd' : (0 : Rat) ≤ (d : Rat) := by exact_mod_cast hd
  have hle : (d : Rat) * f ≤ (d : Rat) := mul_le_of_le_one_right hd' hf
  exact (Int.floor_mono hle).trans (Int.floor_intCast d).le

theorem sub_le {t u : Time} {d : Duration} (hd : 0 ≤ d) (h : t - u ≤ d) : Renew.sub t u ≤ d := by
  have hneg : -maxDuration ≤ 0 := by decide
  exact max_le (hneg.trans hd) ((min_le_left _ _).trans h)

theorem window_le_maxWindow (hone : P.shortLivedFraction < 1)
    (hlife : c.notAfter - c.notBefore ≤ Issue.maxValiditySeconds * second) :
    window P c ≤ maxWindow P := by
  have httl := sub_le (by decide) hlife
  have hlong := scale_mono (sub_nonneg.2 hone.le) httl
  unfold Renew.window maxWindow
  generalize Renew.sub c.notAfter c.notBefore = ttl at httl hlong ⊢
  dsimp only
  by_cases hpos : ttl ≤ 0
  · rw [if_pos hpos]
    split <;> linarith
  -- a part of a lifetime that is no longer than the fixed window
  have hshort := scale_le_self (not_le.1 hpos).le hone.le
  split_ifs <;> linarith

end Window

end Pass

variable {c : IssuedCertificate}

/-- A certificate with a lifetime that `Issue` grants is due only when it expires within the longest
window. -/
theorem in_scan_of_lifetime {P : Platform} {now : Time} (hone : P.shortLivedFraction < 1)
    (hlife : c.notAfter - c.notBefore ≤ Issue.maxValiditySeconds * second)
    (hdue : due P c now = true) : c.notAfter ≤ now + maxWindow P := by
  have hat : c.notAfter - window P c ≤ now := of_decide_eq_true hdue
  have hwindow := Pass.window_le_maxWindow hone hlife
  linarith

namespace Pass

variable {P : Platform} {w : Worlds}

/-! ## What a pass starts -/

/-- The certificates are handed out in order; it stops at the first sign that the context has ended. -/
theorem starts_handOut (w : Worlds) (certs : List IssuedCertificate) (n : Nat) :
    ((handOut certs).run.starts w n) <+: certs.map Call.renewOne ∧
      ((handOut certs).run.starts w n = certs.map Call.renewOne ↔
        ∀ j < certs.length, (w (n + j)).1.cancelled = false) := by
  induction certs generalizing n with
  | nil => exact ⟨prefix_refl _, iff_of_true rfl fun j hj => absurd hj (Nat.not_lt_zero j)⟩
  | cons c cs ih =>
    have hstep : (handOut (c :: cs)).run.starts w n =
        if (w n).1.cancelled then [] else .renewOne c :: (handOut cs).run.starts w (n + 1) := by
      show Prog.starts w (Prog.bind _ _) _ = _
      cases hstop : (w n).1.cancelled <;> simp [Prog.starts, Svc.ask, hstop, Svc.run] <;> rfl
    obtain ⟨hinit, hall⟩ := ih (n + 1)
    rw [hstep, map_cons]
    cases hstop : (w n).1.cancelled with
    | true =>
      refine ⟨ nil_prefix, iff_of_false (by simp) fun h => ?_⟩
      have hfirst := h 0 (Nat.succ_pos _)
      rw [Nat.add_zero, hstop] at hfirst
      cases hfirst
    | false =>
      refine ⟨cons_prefix_cons.2 ⟨rfl, hinit⟩, ?_⟩
      rw [if_neg Bool.false_ne_true, cons_inj_right, hall]
      constructor
      · intro h j hj
        cases j with
        | zero => exact hstop
        | succ j =>
          rw [Nat.add_comm j 1, ← Nat.add_assoc]
          exact h j (Nat.lt_of_succ_lt_succ hj)
      intro h j hj
      have hnext := h (j + 1) (Nat.succ_lt_succ hj)
      rwa [Nat.add_comm j 1, ← Nat.add_assoc] at hnext

/-- The certificates a pass hands out, unless it is cut short. -/
def selected (P : Platform) (w : Worlds) : List IssuedCertificate :=
  ((orderBy IssuedCertificate.notAfter (fun c => (w 1).1.tie c.id) (inScan P w)).take
    maxBatch).filter fun c => due P c w.now

theorem starts_of_fault (h : (w 1).1.fault ≠ .ok) : (body P .runOnce).run.starts w 0 = [] := by
  show Prog.starts w (Prog.bind _ _) 0 = []
  cases hf : (w 1).1.fault with
  | ok => exact absurd hf h
  | begin t | stmt t =>
    simp [Prog.starts, Renew.runOnce, Svc.now, Svc.ask, Svc.repo, transact, hf, bind, Svc.bind]

theorem starts_of_ok (h : (w 1).1.fault = .ok) :
    (body P .runOnce).run.starts w 0 = (handOut (selected P w)).run.starts w 2 := by
  have hscan : (transact (Sql.dueForRenewal w.now (w.now + maxWindow P) maxBatch) (w 1).1
      (w 1).2).1 = .ok ((orderBy IssuedCertificate.notAfter (fun c => (w 1).1.tie c.id)
        (inScan P w)).take maxBatch) := by
    rw [transact, h]
    rfl
  refine (Prog.starts_bind_of_nil ?_ (Renew.runOnce P).run 0).trans ?_
  · intro r n
    cases r <;> rfl
  · -- the clock and the scan are the first two steps
    simp only [Renew.runOnce, Svc.run, Svc.now, Svc.ask, Svc.repo, bind, Svc.bind, Prog.step_bind,
      Prog.ret_bind, Prog.starts, Nat.zero_add]
    rw [Worlds.now] at hscan
    rw [hscan]
    rfl

theorem nodup_certificates (w : Worlds) : w.certificates.Nodup := (w 1).2.certificates.nodup.of_map

theorem mem_dueNow_iff (hwindow : c.notAfter ≤ w.now + maxWindow P) :
    c ∈ dueNow P w ↔ c ∈ inScan P w ∧ due P c w.now = true := by
  simp only [dueNow, inScan, mem_filter, IsDue, Sql.DueBy, Bool.and_eq_true,
    decide_eq_true hwindow, and_true]
  exact (and_assoc).symm

theorem window_of_mem_inScan (h : c ∈ inScan P w) : c.notAfter ≤ w.now + maxWindow P := by
  have hdue := (mem_filter.1 h).2
  simp only [Sql.DueBy, Bool.and_eq_true, decide_eq_true_eq] at hdue
  exact hdue.2

theorem mem_inScan_of_mem_take {n : Nat} {tie : IssuedCertificate → Nat}
    (h : c ∈ (orderBy IssuedCertificate.notAfter tie (inScan P w)).take n) : c ∈ inScan P w :=
  mem_orderBy.1 (mem_of_mem_take h)

theorem selected_subset : selected P w ⊆ dueNow P w := by
  intro c hc
  obtain ⟨htake, hdue⟩ := mem_filter.1 hc
  have hscan := mem_inScan_of_mem_take htake
  exact (mem_dueNow_iff (window_of_mem_inScan hscan)).2 ⟨hscan, hdue⟩

theorem nodup_selected : (selected P w).Nodup := by
  have hscan : (inScan P w).Nodup := (nodup_certificates w).filter _
  exact (((orderBy_perm _ _ _).nodup_iff.2 hscan).sublist (take_sublist _ _)).filter _

theorem renewsExactly_iff (h : (w 1).1.fault = .ok) :
    RenewsExactly P w ↔ dueNow P w ⊆ selected P w ∧
      ∀ j < (dueNow P w).length, (w (2 + j)).1.cancelled = false := by
  obtain ⟨hinit, hall⟩ := starts_handOut w (selected P w) 2
  have hdue : (dueNow P w).Nodup := (nodup_certificates w).filter _
  have hsub : (selected P w).Subperm (dueNow P w) := subperm_of_subset nodup_selected
    selected_subset
  unfold RenewsExactly
  rw [starts_of_ok h]
  constructor
  · intro hperm
    -- by their number, nothing that is due is left out
    have hlen : (dueNow P w).length ≤ (selected P w).length := by
      have hle := hinit.length_le
      rw [hperm.length_eq, length_map, length_map] at hle
      exact hle
    have hsame := hsub.perm_of_length_le hlen
    have heq := hinit.eq_of_length (by rw [hperm.length_eq, length_map, length_map,
      hsame.length_eq])
    refine ⟨fun c hc => hsame.mem_iff.2 hc, ?_⟩
    rw [← hsame.length_eq]
    exact hall.1 heq
  · rintro ⟨hselected, hgo⟩
    have hsame : (selected P w).Perm (dueNow P w) :=
      (perm_ext_iff_of_nodup nodup_selected hdue).2 fun c =>
        ⟨fun hc => selected_subset hc, fun hc => hselected hc⟩
    rw [← hsame.length_eq] at hgo
    rw [hall.2 hgo]
    exact hsame.map _

theorem renewsExactly_of_fault (h : (w 1).1.fault ≠ .ok) :
    RenewsExactly P w ↔ dueNow P w = [] := by
  unfold RenewsExactly
  rw [starts_of_fault h, nil_perm, map_eq_nil_iff]

/-- However certificates that expire together are ordered, the ones within reach are selected. -/
theorem dueNow_subset_selected (hwindow : ∀ c ∈ dueNow P w, c.notAfter ≤ w.now + maxWindow P)
    (hbatch : ∀ c ∈ dueNow P w,
      ((inScan P w).filter fun x => decide (x.notAfter ≤ c.notAfter)).length ≤ maxBatch) :
    dueNow P w ⊆ selected P w := by
  intro c hc
  obtain ⟨hscan, hdue⟩ := (mem_dueNow_iff (hwindow c hc)).1 hc
  exact mem_filter.2 ⟨mem_take_orderBy hscan (hbatch c hc), hdue⟩

theorem batch_of_selected (hc : c ∈ dueNow P w) (h : ∀ tie, c ∈ selected P (w.withTie tie)) :
    ((inScan P w).filter fun x => decide (x.notAfter ≤ c.notAfter)).length ≤ maxBatch := by
  by_contra hlt
  have htake := (mem_filter.1 (h fun id => if id = c.id then 1 else 0)).1
  refine notMem_take_orderBy ?_ ?_ ((nodup_certificates w).filter _) (not_le.1 hlt) htake
  · exact mem_inScan_of_mem_take htake
  intro x hx hne
  have hid : x.id ≠ c.id := fun hid => hne
    ((w 1).2.certificates.eq_of_key_eq (mem_of_mem_filter hx) (mem_of_mem_filter hc) hid)
  simp [Worlds.withTie, hid]

end Pass

open Pass

/-- Whatever the steps of a pass find: it renews just the certificates that are due, however
certificates that expire together are ordered, if and only if it is complete. -/
theorem pass_exact_iff (P : Platform) (w : Worlds) :
    (∀ tie, RenewsExactly P (w.withTie tie)) ↔ Complete P w := by
  by_cases hfault : (w 1).1.fault = .ok
  · constructor
    · intro h
      have hexact : ∀ tie, dueNow P w ⊆ selected P (w.withTie tie) ∧
          ∀ j < (dueNow P w).length, (w (2 + j)).1.cancelled = false :=
        fun tie => (renewsExactly_iff (w := w.withTie tie) hfault).1 (h tie)
      refine ⟨fun c hc => ?_, fun c hc => ?_, fun _ => hfault, (hexact fun _ => 0).2⟩
      · have hselected := (hexact fun _ => 0).1 hc
        have hscan := mem_inScan_of_mem_take (mem_filter.1 hselected).1
        exact window_of_mem_inScan (w := w) hscan
      · exact batch_of_selected hc fun tie => (hexact tie).1 hc
    · intro h tie
      exact (renewsExactly_iff (w := w.withTie tie) hfault).2
        ⟨dueNow_subset_selected (w := w.withTie tie) h.window h.batch, h.goesOn⟩
  · constructor
    · intro h
      have hnone : dueNow P w = [] :=
        (renewsExactly_of_fault (w := w.withTie fun _ => 0) hfault).1 (h fun _ => 0)
      refine ⟨?_, ?_, fun hne => absurd hnone hne, ?_⟩ <;> rw [hnone] <;> simp
    intro h tie
    refine (renewsExactly_of_fault (w := w.withTie tie) hfault).2 ?_
    by_contra hne
    exact hfault (h.answered hne)

/-! ## A certificate of three years -/

namespace Sample

/-- An imported certificate, valid for three years. -/
def threeYears : IssuedCertificate :=
  ⟨7, 1, 3, some .generic, none, "9", "", "a.example", ["a.example"], 0,
    3 * 365 * 24 * 3600 * second, "", .active, "C", "", [], false, true, none, "ann", some "ann",
    some "ann", 0⟩

def afterTwoYears : Worlds := fun _ =>
  ({ env 20 with clock := 2 * 365 * 24 * 3600 * second },
    { database with certificates := ⟨[threeYears], by decide⟩ })

theorem scale_half (d : Int) : scale (2 * d) (1 / 2) = d := by
  have hhalf : ((2 * d : Int) : Rat) * (1 / 2) = (d : Rat) := by
    push_cast
    ring
  rw [scale, hhalf, Int.floor_intCast]

theorem longPart_platform : 1 - platform.shortLivedFraction = 1 / 2 := by
  show (1 : Rat) - 1 / 2 = 1 / 2
  norm_num

theorem maxWindow_platform : maxWindow platform = 365 * 12 * 3600 * second := by
  have hscale : scale (Issue.maxValiditySeconds * second) (1 - platform.shortLivedFraction) =
      365 * 12 * 3600 * second := by
    rw [longPart_platform]
    exact scale_half (365 * 12 * 3600 * second)
  rw [maxWindow, hscale]
  exact if_neg (by decide)

theorem window_threeYears : window platform threeYears = 3 * 365 * 12 * 3600 * second := by
  have hscale : scale (Renew.sub threeYears.notAfter threeYears.notBefore)
      (1 - platform.shortLivedFraction) = 3 * 365 * 12 * 3600 * second := by
    rw [longPart_platform]
    exact scale_half (3 * 365 * 12 * 3600 * second)
  rw [Renew.window, if_neg (by decide), if_neg (by decide), hscale]
  exact if_neg (by decide)

end Sample

open Sample in
/-- A certificate of one year, after half of it. -/
theorem in_scan_of_lifetime_year :
    365 * 24 * 3600 * second ≤ 365 * 12 * 3600 * second + maxWindow platform := by
  refine in_scan_of_lifetime (c := { threeYears with notAfter := 365 * 24 * 3600 * second }) ?_ ?_ ?_
  · decide +kernel
  · decide +kernel
  · decide +kernel

open Sample in
/-- The only certificate is due, with one year to go, and the pass does not look that far. -/
theorem pass_misses_import :
    dueNow platform afterTwoYears = [threeYears] ∧ ¬ RenewsExactly platform afterTwoYears := by
  have hdue : due platform threeYears afterTwoYears.now = true := by
    rw [due, window_threeYears]
    decide
  have hone : dueNow platform afterTwoYears = [threeYears] :=
    filter_eq_self.2 fun c hc => by
      obtain rfl := mem_singleton.1 hc
      rw [IsDue, hdue]
      decide
  refine ⟨hone, fun h => ?_⟩
  have hall := ((renewsExactly_iff rfl).1 h).1
  rw [hone] at hall
  have hscan := mem_inScan_of_mem_take (mem_filter.1 (hall mem_cons_self)).1
  have hwindow := window_of_mem_inScan hscan
  rw [maxWindow_platform] at hwindow
  exact absurd hwindow (by decide)

end Lcm
