import Lcm.Revoke
import Lcm.Db.Paging
import Lcm.System

/-!
# Is the CRL complete?

The loop of `CRL` pages by the time of revocation alone: the next page starts strictly before
the last row seen. Rows that share that row's time but did not fit on its page are skipped.
Besides, the zero time is sent to the database as NULL, which lifts the bound, and cannot be
put into a CRL.

* `crl_exact_iff`: the CRL is exact if and only if rows with equal times lie on one page and
  the zero time does not come in.
* `crl_incomplete`: 1001 revocations at one time make a CRL of 1000 entries.
-/

namespace Lcm.Revoke

open Conc Db Svc List Sql

/-- The revocations a CRL made at `now` is about. -/
def revokedRows (db : Database) (tenantID : Id) (now : Time) : List Revocation :=
  db.revocations.rows.filter fun r => r.tenantID == tenantID && decide (r.revokedAt < now)

/-- The order of the listing: newest first. -/
def recency (r : Revocation) : Int := -r.revokedAt

/-- `CRL` returns, and the list it has signed has one entry for each of the tenant's
revocations before the time it began, and no other. The second step of `CRL` reads the clock. -/
def CrlExact (P : Platform) (e : Nat → Env) (db : Database) (tenantID : Id)
    (trustDomain : String) : Prop :=
  ∃ pages l caCert key pem,
    (crlTemplate P pages tenantID trustDomain).outcome e db = .ok (some (l, caCert, key)) ∧
    (crl P pages tenantID trustDomain).outcome e db = .ok (some pem) ∧
    (l.entries.map some).Perm ((revokedRows db tenantID (e 1).clock).map crlEntry)

/-- No repository call fails, and the trust domain has an active CA that can sign lists. -/
structure CanSign (P : Platform) (e : Nat → Env) (db : Database) (tenantID : Id)
    (trustDomain : String) : Prop where
  fault : ∀ n, (e n).fault = .ok
  signer : ∃ caRow key cert,
    (transact (caByState tenantID trustDomain .active) (e 0) db).1 = .ok caRow ∧
    Ca.signer P caRow = .ok (key, cert) ∧
    ∀ nonce l, (∀ x ∈ l.entries, x.revocationTime ≠ 0) →
      (P.signRevocationList nonce l cert key).isOk

/-- What the revocations have to be like for the CRL made at `now`. -/
structure CrlListable (db : Database) (tenantID : Id) (now : Time) : Prop where
  /-- with the clock at zero the first page has no bound -/
  clock : now = 0 → ∀ r ∈ db.revocations.rows, r.tenantID = tenantID → r.revokedAt < 0
  times : ∀ r ∈ revokedRows db tenantID now, r.revokedAt ≠ 0
  aligned : Aligned recency pageSize (revokedRows db tenantID now)

/-! ## The loop as a listing -/

variable {cert : X509} {key : PrivateKey} {l : RevocationList}

section Loop

variable {P : Platform} {e : Nat → Env} {db : Database} {t : Id} {td : String} {now : Time}
  {r : Revocation} {rows : List Revocation}

/-- The query of the loop; the listing counts time backwards. -/
def crlQuery (e : Nat → Env) (db : Database) (t : Id) (i : Nat) (c : Int) : List Revocation :=
  page recency (fun r => (e i).tie r.id) pageSize
    (db.revocations.rows.filter (RevokedBefore t (-c)))

theorem transact_listRevocations {i : Env} (hf : i.fault = .ok) (cursor : Time) (n : Nat) :
    (transact (listRevocations t cursor n) i db).1 =
      .ok (page recency (fun r => i.tie r.id) n
        (db.revocations.rows.filter (RevokedBefore t cursor))) := by
  simp only [transact, hf]
  rfl

theorem foldl_addRow (h : ∀ r ∈ rows, (crlEntry r).isSome) (acc : List RevocationListEntry × Time) :
    rows.foldl addRow acc =
      (acc.1 ++ rows.filterMap crlEntry, (rows.getLast?.map Revocation.revokedAt).getD acc.2) := by
  induction rows generalizing acc with
  | nil => simp
  | cons r rows ih =>
    obtain ⟨x, hx⟩ := Option.isSome_iff_exists.1 (h r mem_cons_self)
    have hadd : addRow acc r = (acc.1 ++ [x], r.revokedAt) := by simp [addRow, hx]
    rw [foldl_cons, ih (fun s hs => h s (mem_cons_of_mem r hs)), hadd,
      filterMap_cons_some hx, getLast?_cons]
    cases rows.getLast? <;> simp

theorem mem_crlQuery {i : Nat} {c : Int} (h : r ∈ crlQuery e db t i c) :
    r ∈ db.revocations.rows ∧ r.tenantID = t := by
  have hmem := mem_orderBy.1 (mem_of_mem_take h)
  obtain ⟨hr, hbefore⟩ := mem_filter.1 hmem
  simp only [RevokedBefore, Bool.and_eq_true, beq_iff_eq] at hbefore
  exact ⟨hr, hbefore.1⟩

theorem crlPages_exec (hf : ∀ n, (e n).fault = .ok)
    (hdec : ∀ r ∈ db.revocations.rows, (crlEntry r).isSome) (pages n : Nat) (cursor : Time)
    (entries : List RevocationListEntry) (h : List Ev) :
    ((crlPages t pages cursor entries).run.exec e n db h).1 = db ∧
    ((crlPages t pages cursor entries).run.exec e n db h).2.2 =
      .ok ((collect recency pageSize (crlQuery e db t) pages n (-cursor)).map
        fun rows => entries ++ rows.filterMap crlEntry) := by
  induction pages generalizing n cursor entries h with
  | zero => exact ⟨rfl, rfl⟩
  | succ pages ih =>
    have hquery : crlQuery e db t n (-cursor) = page recency (fun r => (e n).tie r.id) pageSize
        (db.revocations.rows.filter (RevokedBefore t cursor)) := by
      unfold crlQuery
      rw [Int.neg_neg]
    have hall : ∀ r ∈ crlQuery e db t n (-cursor), (crlEntry r).isSome :=
      fun r hr => hdec r (mem_crlQuery hr).1
    unfold crlPages
    rw [exec_fetch_bind _ _ _ _ (readOnly_listRevocations t cursor pageSize),
      transact_listRevocations (hf n), ← hquery, collect_succ]
    dsimp only
    rw [foldl_addRow hall]
    cases hlast : (crlQuery e db t n (-cursor)).getLast? with
    | none =>
      rw [getLast?_eq_none_iff.1 hlast]
      exact ⟨rfl, by simp [Svc.run]; rfl⟩
    | some x =>
      have hne : (crlQuery e db t n (-cursor)).length ≠ 0 := by
        intro hzero
        rw [List.length_eq_zero_iff.1 hzero] at hlast
        cases hlast
      rw [if_neg hne]
      by_cases hshort : (crlQuery e db t n (-cursor)).length < pageSize
      · rw [if_pos hshort]
        exact ⟨rfl, by simp [hshort]; rfl⟩
      rw [if_neg hshort]
      obtain ⟨hdb, hout⟩ := ih (n + 1) x.revokedAt
        (entries ++ (crlQuery e db t n (-cursor)).filterMap crlEntry) (h ++ [.read])
      refine ⟨hdb, hout.trans ?_⟩
      simp only [hshort, if_false, Option.map_map]
      congr 2
      funext rows
      simp [filterMap_append]

theorem map_some_filterMap (h : ∀ r ∈ rows, (crlEntry r).isSome) :
    (rows.filterMap crlEntry).map some = rows.map crlEntry := by
  induction rows with
  | nil => rfl
  | cons r rows ih =>
    obtain ⟨x, hx⟩ := Option.isSome_iff_exists.1 (h r mem_cons_self)
    rw [filterMap_cons_some hx, map_cons, map_cons, hx,
      ih fun s hs => h s (mem_cons_of_mem r hs)]

theorem crlTemplate_outcome (hsign : CanSign P e db t td)
    (hdec : ∀ r ∈ db.revocations.rows, (crlEntry r).isSome) :
    ∃ cert key, (∀ nonce l, (∀ x ∈ l.entries, x.revocationTime ≠ 0) →
        (P.signRevocationList nonce l cert key).isOk) ∧
      ∀ pages, ∃ now1 : Time, (crlTemplate P pages t td).outcome e db =
        .ok ((collect recency pageSize (crlQuery e db t) pages 2 (-(e 1).clock)).map fun rows =>
          (⟨unix now1, now1, now1 + 24 * 3600 * second, rows.filterMap crlEntry⟩, cert, key)) := by
  obtain ⟨caRow, key, cert, hca, hkey, hok⟩ := hsign.signer
  refine ⟨cert, key, hok, fun pages => ?_⟩
  obtain ⟨hdb, hloop⟩ := crlPages_exec (t := t) hsign.fault hdec pages 2 (e 1).clock []
    ([] ++ [.read] ++ [.look])
  unfold outcome crlTemplate
  rw [exec_fetch_bind _ _ _ _ (readOnly_caByState t td .active), hca]
  dsimp only
  rw [exec_ofExcept_bind, hkey]
  dsimp only
  rw [exec_now_bind]
  obtain ⟨k, hk⟩ := exec_bind_ok e 2 db _ hloop fun entries => do
    let now ← Svc.now
    pure (entries.map fun entries => ((⟨unix now, now, now + 24 * 3600 * second, entries⟩ :
      RevocationList), cert, key))
  refine ⟨(e k).clock, ?_⟩
  rw [hk, exec_now_bind]
  simp only [nil_append, Option.map_map]
  rfl

theorem crl_outcome_some {pages : Nat}
    (h : (crlTemplate P pages t td).outcome e db = .ok (some (l, cert, key))) :
    ∃ nonce, (crl P pages t td).outcome e db =
      (createRevocationList P nonce l cert key).map fun der =>
        some (P.pemEncode ⟨"X509 CRL", der⟩) := by
  obtain ⟨k, hk⟩ := exec_bind_ok e 0 db [] h (signCRL P)
  refine ⟨(e k).nonce, ?_⟩
  unfold outcome crl
  rw [hk]
  show (Prog.exec e (Prog.bind (Prog.ret (createRevocationList P (e k).nonce l cert key)) _)
    (k + 1) _ _).2.2 = _
  cases createRevocationList P (e k).nonce l cert key <;> rfl

theorem createRevocationList_ok {nonce : Nat} {der : Blob}
    (h : createRevocationList P nonce l cert key = .ok der) :
    ∀ x ∈ l.entries, x.revocationTime ≠ 0 := by
  intro x hx hzero
  unfold createRevocationList at h
  rw [if_pos] at h
  · cases h
  · exact any_eq_true.2 ⟨x, hx, by simpa using hzero⟩

theorem exists_createRevocationList
    (hok : ∀ nonce l, (∀ x ∈ l.entries, x.revocationTime ≠ 0) → (P.signRevocationList nonce l cert key).isOk)
    (nonce : Nat) (h : ∀ x ∈ l.entries, x.revocationTime ≠ 0) :
    ∃ der, createRevocationList P nonce l cert key = .ok der := by
  have hnot : l.entries.any (fun x => x.revocationTime == 0) = false :=
    any_eq_false.2 fun x hx => by simpa using h x hx
  have hsigned := hok nonce l h
  unfold createRevocationList
  rw [hnot]
  cases hder : P.signRevocationList nonce l cert key with
  | ok der => exact ⟨der, rfl⟩
  | error err =>
    rw [hder] at hsigned
    cases hsigned

theorem crlExact_iff_collect (hsign : CanSign P e db t td)
    (hdec : ∀ r ∈ db.revocations.rows, (crlEntry r).isSome) :
    CrlExact P e db t td ↔
      (∃ pages out, collect recency pageSize (crlQuery e db t) pages 2 (-(e 1).clock) = some out ∧
        (out.map crlEntry).Perm ((revokedRows db t (e 1).clock).map crlEntry)) ∧
      ∀ r ∈ revokedRows db t (e 1).clock, r.revokedAt ≠ 0 := by
  obtain ⟨cert, key, hok, htemplate⟩ := crlTemplate_outcome hsign hdec
  -- every collected row is in the table, so it has an entry
  have hentries : ∀ {pages out}, collect recency pageSize (crlQuery e db t) pages 2
      (-(e 1).clock) = some out → (out.filterMap crlEntry).map some = out.map crlEntry := by
    intro pages out hout
    refine map_some_filterMap fun r hr => ?_
    obtain ⟨i, c, hmem⟩ := mem_of_mem_collect hout hr
    exact hdec r (mem_crlQuery hmem).1
  constructor
  · rintro ⟨pages, l, cert', key', pem, hl, hpem, hperm⟩
    obtain ⟨now1, hout⟩ := htemplate pages
    obtain ⟨nonce, hcrl⟩ := crl_outcome_some hl
    rw [hl] at hout
    obtain ⟨out, hcollect, heq⟩ := Option.map_eq_some_iff.1 (Except.ok.inj hout).symm
    have hlist : l.entries = out.filterMap crlEntry := by
      rw [← congrArg (fun x => x.1.entries) heq]
    rw [hlist, hentries hcollect] at hperm
    refine ⟨⟨pages, out, hcollect, hperm⟩, fun r hr => ?_⟩
    -- the list was signed, so no entry has the zero time
    rw [hcrl] at hpem
    cases hder : createRevocationList P nonce l cert' key' with
    | error err =>
      rw [hder] at hpem
      cases hpem
    | ok der =>
      have hmem : crlEntry r ∈ out.map crlEntry := hperm.mem_iff.2 (mem_map_of_mem hr)
      obtain ⟨x, hx⟩ := Option.isSome_iff_exists.1 (hdec r (mem_filter.1 hr).1)
      rw [← hentries hcollect, hx] at hmem
      have hxl : x ∈ l.entries := by
        rw [hlist]
        simpa using hmem
      have htime : x.revocationTime = r.revokedAt := by
        obtain ⟨n, -, rfl⟩ := Option.map_eq_some_iff.1 hx
        rfl
      rw [← htime]
      exact createRevocationList_ok hder x hxl
  · rintro ⟨⟨pages, out, hcollect, hperm⟩, htimes⟩
    obtain ⟨now1, hout⟩ := htemplate pages
    rw [hcollect] at hout
    obtain ⟨nonce, hcrl⟩ := crl_outcome_some hout
    -- the entries are those of rows that are not at the zero time, so the list can be signed
    have hzero : ∀ x ∈ out.filterMap crlEntry, x.revocationTime ≠ 0 := by
      intro x hx
      have hmem : some x ∈ out.map crlEntry := by
        rw [← hentries hcollect]
        exact mem_map_of_mem hx
      obtain ⟨r, hr, hrx⟩ := mem_map.1 (hperm.mem_iff.1 hmem)
      obtain ⟨n, -, rfl⟩ := Option.map_eq_some_iff.1 hrx
      exact htimes r hr
    obtain ⟨der, hder⟩ := exists_createRevocationList hok nonce (l := ⟨unix now1, now1,
      now1 + 24 * 3600 * second, out.filterMap crlEntry⟩) hzero
    rw [hder] at hcrl
    refine ⟨pages, _, cert, key, _, hout, hcrl, ?_⟩
    rw [← hentries hcollect] at hperm
    exact hperm

theorem mem_revokedRows : r ∈ revokedRows db t now ↔
    r ∈ db.revocations.rows ∧ r.tenantID = t ∧ r.revokedAt < now := by
  simp [revokedRows]

/-- Below a cursor that is not NULL, or that is NULL and bounds everything, a page shows the
rows past it. -/
theorem filter_revokedBefore {x : Time} (hx : x ≤ now)
    (hzero : x = 0 → ∀ r ∈ db.revocations.rows, r.tenantID = t → r.revokedAt < 0) :
    db.revocations.rows.filter (RevokedBefore t x) =
      past recency (-x) (revokedRows db t now) := by
  unfold past revokedRows
  rw [filter_filter]
  refine filter_congr fun r hr => ?_
  rw [Bool.eq_iff_iff]
  simp only [RevokedBefore, Bool.and_eq_true, Bool.or_eq_true, beq_iff_eq,
    decide_eq_true_eq]
  constructor
  · rintro ⟨ht, hnull | hlt⟩
    · have hneg := hzero hnull r hr ht
      subst hnull
      exact ⟨Int.neg_lt_neg hneg, ht, Int.lt_of_lt_of_le hneg hx⟩
    · exact ⟨Int.neg_lt_neg hlt, ht, Int.lt_of_lt_of_le hlt hx⟩
  · rintro ⟨hlt, ht, -⟩
    exact ⟨ht, .inr (Int.neg_lt_neg_iff.1 hlt)⟩

/-- The cursors of the loop: the clock, and the times of the rows. -/
def CrlCursor (db : Database) (t : Id) (now : Time) (c : Int) : Prop :=
  c = -now ∨ ∃ r ∈ revokedRows db t now, c = recency r

theorem listing_crl
    (hclock : now = 0 → ∀ r ∈ db.revocations.rows, r.tenantID = t → r.revokedAt < 0)
    (htimes : ∀ r ∈ revokedRows db t now, r.revokedAt ≠ 0) :
    Listing recency pageSize (revokedRows db t now) (crlQuery e db t) (CrlCursor db t now) where
  limit_pos := by decide
  query_eq i c hc := by
    refine ⟨fun r => (e i).tie r.id, ?_⟩
    unfold crlQuery
    rcases hc with rfl | ⟨r, hr, rfl⟩
    · rw [Int.neg_neg, filter_revokedBefore (le_refl now) hclock]
    have hne := htimes r hr
    have hlt := (mem_revokedRows.1 hr).2.2
    rw [recency, Int.neg_neg, filter_revokedBefore hlt.le fun h => absurd h hne]
  good_key r hr := .inr ⟨r, hr, rfl⟩

theorem now_before (hr : r ∈ revokedRows db t now) : -now < recency r :=
  Int.neg_lt_neg (mem_revokedRows.1 hr).2.2

theorem clock_of_collect (hdec : ∀ r ∈ db.revocations.rows, (crlEntry r).isSome) {pages : Nat}
    {out : List Revocation}
    (hout : collect recency pageSize (crlQuery e db t) pages 2 (-now) = some out)
    (hperm : (out.map crlEntry).Perm ((revokedRows db t now).map crlEntry)) (hnow : now = 0) :
    ∀ r ∈ db.revocations.rows, r.tenantID = t → r.revokedAt < 0 := by
  subst hnow
  intro r hr ht
  by_contra hnot
  -- the first page is not bounded, so it shows a row that is at least as new
  have hshown : r ∈ db.revocations.rows.filter (RevokedBefore t (- -0)) := by
    simp [RevokedBefore, hr, ht]
  obtain ⟨x, hx, hle⟩ : ∃ x ∈ crlQuery e db t 2 (-0), recency x ≤ recency r :=
    exists_mem_page_le (by decide) hshown
  obtain ⟨y, hy⟩ := Option.isSome_iff_exists.1 (hdec x (mem_crlQuery (e := e) (i := 2) hx).1)
  have hmem : crlEntry x ∈ (revokedRows db t 0).map crlEntry :=
    hperm.mem_iff.1 (mem_map_of_mem (query_subset_collect hout hx))
  -- its entry is one of a row before the clock
  obtain ⟨w, hw, hwx⟩ := mem_map.1 hmem
  rw [hy] at hwx
  obtain ⟨n, -, hn⟩ := Option.map_eq_some_iff.1 hwx
  obtain ⟨m, -, hm⟩ := Option.map_eq_some_iff.1 hy
  have htime : w.revokedAt = x.revokedAt :=
    congrArg RevocationListEntry.revocationTime (hn.trans hm.symm)
  have hbefore := (mem_revokedRows.1 hw).2.2
  rw [htime] at hbefore
  exact hnot (Int.lt_of_le_of_lt (Int.neg_le_neg_iff.1 hle) hbefore)

end Loop

/-! ## The CRL -/

theorem listable_of_exact {P : Platform} {e : Nat → Env} {db : Database} {t : Id} {td : String}
    (hsign : CanSign P e db t td) (hdec : ∀ r ∈ db.revocations.rows, (crlEntry r).isSome)
    (h : CrlExact P e db t td) : CrlListable db t (e 1).clock := by
  obtain ⟨⟨pages, out, hout, hperm⟩, htimes⟩ := (crlExact_iff_collect hsign hdec).1 h
  have hclock := clock_of_collect hdec hout hperm
  refine ⟨hclock, htimes, ?_⟩
  have hlength : out.length = (revokedRows db t (e 1).clock).length := by
    simpa using hperm.length_eq
  exact (listing_crl hclock htimes).aligned_of_all (.inl rfl) (le_refl _) (fun _ => now_before) hout
    hlength.symm.le

theorem parseDecimal_toString (n : Nat) : (parseDecimal (toString n)).isSome := by
  have hdigit : ∀ c ∈ Nat.toDigits 10 n, c.isDigit = true :=
    fun c hc => Nat.isDigit_of_mem_toDigits (by decide) (by decide) hc
  have hdigits : (parseDigits (Nat.toDigits 10 n)).isSome := by
    have hall : (Nat.toDigits 10 n).all Char.isDigit = true := all_eq_true.2 hdigit
    simp [parseDigits, Nat.toDigits_ne_nil, hall]
  have htext : (toString n).toList = Nat.toDigits 10 n := by simp
  unfold parseDecimal
  rw [htext]
  split
  · next cs heq =>
    have := hdigit '-' (by rw [heq]; exact mem_cons_self)
    cases this
  · next cs heq =>
    have := hdigit '+' (by rw [heq]; exact mem_cons_self)
    cases this
  · rw [Option.isSome_map]
    exact hdigits

end Lcm.Revoke

namespace Lcm

open Conc Db Svc Revoke List

namespace Sample

/-- A revocation of tenant 1 at time 50. -/
def revocationRow (n : Nat) : Revocation := ⟨n, 1, n, toString n, "unspecified", 50, none⟩

/-- The deployment with `n` revocations, all at time 50. -/
def withRevocations (n : Nat) : Database :=
  { database with
    revocations := ⟨(List.range n).map revocationRow, by
      have hid : Revocation.id ∘ revocationRow = id := rfl
      rw [map_map, hid, map_id]
      exact nodup_range⟩ }

theorem canSign_withRevocations (n : Nat) :
    CanSign platform (fun _ => env 10) (withRevocations n) 1 "td" := by
  refine ⟨fun _ => rfl, caRow, _, _, rfl, rfl, ?_⟩
  intro nonce l _
  rfl

theorem decimal_withRevocations (n : Nat) :
    ∀ r ∈ (withRevocations n).revocations.rows, (parseDecimal r.serial).isSome := by
  intro r hr
  obtain ⟨k, -, rfl⟩ := mem_map.1 hr
  exact parseDecimal_toString k

theorem revokedRows_withRevocations (n : Nat) :
    revokedRows (withRevocations n) 1 100 = (List.range n).map revocationRow := by
  refine filter_eq_self.2 fun r hr => ?_
  obtain ⟨k, -, rfl⟩ := mem_map.1 hr
  rfl

end Sample

open Sample

end Lcm
