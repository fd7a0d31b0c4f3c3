import Lcm.Pages
import Lcm.Safety.Visibility

/-!
# Shown and stored status

The status a certificate is shown with is derived from its dates when it is read. The status
filter of the lists and the counters of `TenantStats` look at the stored column.

* `onPages_iff`, `exists_walk`: what the pages of `PageCertificates` and of `ListCertificates` show.
* `status_agrees_iff`: filter and counters agree with the shown status just when the stored
  status follows the dates.
* `expired_listed_active`: it need not.
-/

namespace Lcm.Issue

open Db Svc Authz List Sql

/-! ## Numbered pages -/

variable {c x : IssuedCertificate} {limit : Nat} {cur : Option Id}

section Pages

variable (P : Platform) {e : Env} {s : Database} {subj : Subjects}

/-- The certificates of the caller's tenant with the stored status. -/
def Stored (s : Database) (t : Id) (st : CertStatus) (c : IssuedCertificate) : Prop :=
  c ∈ s.certificates.rows ∧ c.tenantID = t ∧ c.status = st

/-- The id is shown on one of the pages of the request. -/
def OnPages (e : Env) (s : Database) (subj : Subjects) (f : CertificateListFilter)
    (req : PageRequest) (id : Id) : Prop :=
  ∃ n : Nat, 0 < n ∧ ∃ page,
    observe e s (pageCertificates P subj f { req with page := n }) = .ok page ∧
      ∃ v ∈ page.items, v.id = id

theorem certStatusText_inj {st st' : CertStatus} (h : certStatusText st = certStatusText st') :
    st = st' := by
  cases st <;> cases st' <;> first | rfl | exact absurd h (by decide)

theorem admits_status {t : Id} {st : CertStatus} {vis : Visible} :
    CertificatePageFilter.admits ⟨.any, "", certStatusText st, vis⟩ t c = true ↔
      c.tenantID = t ∧ c.status = st ∧ vis.shows c.id = true := by
  have hne : certStatusText st ≠ "" := by cases st <;> decide
  have htext : certStatusText c.status = certStatusText st ↔ c.status = st :=
    ⟨certStatusText_inj, congrArg certStatusText⟩
  simp [CertificatePageFilter.admits, IdFilter.admits, admitsText, hne, htext, and_assoc]

/-- The pages of a valid request with a status filter show the certificates in the caller's read
scope that are stored with the status. -/
theorem onPages_iff (hQ : P.listQuery.Lawful) (hfault : e.fault = .ok) {req : PageRequest}
    (hreq : (P.listQuery.new req (certificateList subj.isAdmin)).2 = true) (st : CertStatus)
    (id : Id) :
    OnPages P e s subj ⟨.any, "", certStatusText st⟩ req id ↔
      ∃ c, Stored s subj.tenantID st c ∧ c.id = id ∧ Lists e s subj .certificate id := by
  obtain ⟨vis, hvis, hall, hshows⟩ := observe_readable (s := s) hfault subj .certificate
  rw [← hall] at hreq
  unfold OnPages
  simp only [observe_pageCertificates P hfault hvis]
  constructor
  · rintro ⟨n, -, page, hpage, v, hv, rfl⟩
    cases hpage
    obtain ⟨c, hc, rfl⟩ := mem_map.1 hv
    obtain ⟨hrow, hadmits⟩ := mem_filter.1 (ListQuery.mem_of_mem_page hc)
    obtain ⟨ht, hst, hshown⟩ := admits_status.1 hadmits
    exact ⟨c, ⟨hrow, ht, hst⟩, rfl, (hshows c.id).1 hshown⟩
  rintro ⟨c, ⟨hc, ht, hst⟩, rfl, hlists⟩
  have hadmits : c ∈ s.certificates.rows.filter
      (CertificatePageFilter.admits ⟨.any, "", certStatusText st, vis⟩ subj.tenantID) :=
    mem_filter.2 ⟨hc, admits_status.2 ⟨ht, hst, (hshows c.id).2 hlists⟩⟩
  obtain ⟨n, hn, hmem⟩ := hQ.exists_mem_page hreq hadmits
  exact ⟨n, hn, _, rfl, viewAt s subj e.clock c, mem_map_of_mem hmem, rfl⟩

end Pages

/-! ## The listing by a cursor -/

section Listing

variable {e : Env} {s : Database} {subj : Subjects} {vis : Visible} {t : Id} {f : CertificateFilter}
  {out : List CertificateView} {rounds : Nat}

/-- The rows of a listing, newest first. -/
def listing (s : Database) (t : Id) (f : CertificateFilter) : List IssuedCertificate :=
  sortRows NewerCertificate
    (s.certificates.rows.filter fun c => c.tenantID == t && Shown f c)

/-- The filter of the batch behind a row. -/
def behind (f : CertificateFilter) (c : IssuedCertificate) : CertificateFilter :=
  { f with cursorTS := c.createdAt, cursorID := some c.id }

/-- Every certificate has a creation time: `created_at` is `DEFAULT now()`. -/
def Dated (s : Database) : Prop := ∀ c ∈ s.certificates.rows, c.createdAt ≠ 0

instance (s : Database) : Decidable (Dated s) := inferInstanceAs (Decidable (∀ _ ∈ _, _))

theorem mem_listing :
    c ∈ listing s t f ↔ c ∈ s.certificates.rows ∧ c.tenantID = t ∧ Shown f c = true := by
  unfold listing sortRows
  rw [mem_insertionSort, mem_filter, Bool.and_eq_true, beq_iff_eq]

theorem sortable_newer : Sortable NewerCertificate :=
  sortable_newestFirst IssuedCertificate.createdAt IssuedCertificate.id

theorem apart_newer (p : IssuedCertificate → Bool) :
    Apart NewerCertificate (s.certificates.rows.filter p) := fun _ ha _ hb hab hba =>
  Table.eq_of_key_eq (mem_of_mem_filter ha) (mem_of_mem_filter hb)
    (id_eq_of_not_newer IssuedCertificate.createdAt IssuedCertificate.id hab hba)

theorem nodup_rows (p : IssuedCertificate → Bool) : (s.certificates.rows.filter p).Nodup :=
  (List.Nodup.of_map _ s.certificates.nodup).filter p

theorem shown_iff : Shown f c = true ↔
    ((f.issuerID.all fun i => c.issuerID == i) = true ∧ (f.spiffeID = "" ∨ c.spiffeID = f.spiffeID) ∧
      (f.status.all fun st => c.status == st) = true) ∧
    (f.cursorTS = 0 ∨ c.createdAt < f.cursorTS ∨
      (c.createdAt = f.cursorTS ∧ ∃ i, f.cursorID = some i ∧ c.id < i)) := by
  simp [Shown, and_assoc, or_assoc, Option.any_eq_true]

theorem newer_iff : NewerCertificate x c = true ↔
    c.createdAt < x.createdAt ∨ (x.createdAt = c.createdAt ∧ c.id < x.id) := newestFirst_iff

theorem shown_behind (hx : Shown f x = true) (hdate : x.createdAt ≠ 0) (c : IssuedCertificate) :
    Shown (behind f x) c = (Shown f c && NewerCertificate x c) := by
  have hcursor : (x.createdAt = 0 ∨ c.createdAt < x.createdAt ∨
      (c.createdAt = x.createdAt ∧ ∃ i, some x.id = some i ∧ c.id < i)) ↔
      NewerCertificate x c = true := by
    rw [newer_iff, or_iff_right hdate, eq_comm (a := c.createdAt)]
    simp
  have hbelow : NewerCertificate x c = true → f.cursorTS = 0 ∨ c.createdAt < f.cursorTS ∨
      (c.createdAt = f.cursorTS ∧ ∃ i, f.cursorID = some i ∧ c.id < i) := by
    intro hnewer
    rcases (shown_iff.1 hx).2 with h0 | hlt | ⟨heq, i, hi, hlt⟩
    · exact .inl h0
    · rcases newer_iff.1 hnewer with hlt' | ⟨heq', -⟩
      · exact .inr (.inl (Int.lt_trans hlt' hlt))
      · exact .inr (.inl (heq' ▸ hlt))
    rcases newer_iff.1 hnewer with hlt' | ⟨heq', hid⟩
    · exact .inr (.inl (heq ▸ hlt'))
    · exact .inr (.inr ⟨heq'.symm.trans heq, i, hi, Nat.lt_trans hid hlt⟩)
  rw [Bool.eq_iff_iff, Bool.and_eq_true, shown_iff, shown_iff]
  constructor
  · rintro ⟨hcolumns, hnewer⟩
    exact ⟨⟨hcolumns, hbelow (hcursor.1 hnewer)⟩, hcursor.1 hnewer⟩
  · rintro ⟨⟨hcolumns, -⟩, hnewer⟩
    exact ⟨hcolumns, hcursor.2 hnewer⟩

theorem listing_behind (p : IssuedCertificate → Bool) {i : Nat}
    (hx : ((listing s t f).filter p)[i]? = some x) (hdate : x.createdAt ≠ 0) :
    (listing s t (behind f x)).filter p = ((listing s t f).filter p).drop (i + 1) := by
  have hshown := (mem_listing.1 (mem_of_mem_filter (mem_of_getElem? hx))).2.2
  have hrows : s.certificates.rows.filter (fun c => c.tenantID == t && Shown (behind f x) c) =
      (s.certificates.rows.filter fun c => c.tenantID == t && Shown f c).filter
        (NewerCertificate x) := by
    rw [filter_filter]
    refine filter_congr fun c _ => ?_
    rw [shown_behind hshown hdate, ← Bool.and_assoc, Bool.and_comm]
  have hsort : (listing s t f).filter p = ((s.certificates.rows.filter fun c =>
      c.tenantID == t && Shown f c).filter p).insertionSort
        fun a b => NewerCertificate b a = false :=
    (sortable_newer.insertionSort_filter (apart_newer _) p).symm
  have hbehind : listing s t (behind f x) = (listing s t f).filter (NewerCertificate x) := by
    unfold listing sortRows
    rw [hrows, sortable_newer.insertionSort_filter (apart_newer _)]
  rw [hbehind, filter_comm]
  rw [hsort, filter_filter] at hx ⊢
  exact sortable_newer.filter_less_eq_drop (apart_newer _) (nodup_rows _) hx

theorem own_batch {n : Nat} : Own s subj ((listing s subj.tenantID f).take n) := by
  intro c hc
  obtain ⟨hrow, ht, -⟩ := mem_listing.1 (mem_of_mem_take hc)
  exact ⟨hrow, ht⟩

/-! ### One page -/

theorem quiet_listBatch (subj : Subjects) (vis : Visible) (limit : Nat)
    (rows : List IssuedCertificate) (out : List CertificateView) :
    Quiet (listBatch subj vis limit rows out) := by
  induction rows generalizing out with
  | nil => exact only_pure _
  | cons c rows ih =>
    unfold listBatch
    split
    · exact ih out
    refine only_bind (quiet_effective _ _ _) fun _ => only_bind (quiet_certView _ _) fun v => ?_
    split
    · exact only_pure _
    · exact ih _

theorem quiet_listRounds (subj : Subjects) (vis : Visible) (rounds : Nat) (f : CertificateFilter)
    (out : List CertificateView) : Quiet (listRounds subj vis rounds f out) := by
  induction rounds generalizing f out with
  | zero => exact only_pure _
  | succ rounds ih =>
    unfold listRounds
    split
    · exact only_pure _
    refine only_bind (quiet_fetch (readOnly_query _)) fun rows => ?_
    split
    · exact only_pure _
    refine only_bind (quiet_listBatch _ _ _ _ _) fun out' => ?_
    split
    · exact only_pure _
    · exact ih _ _

theorem observe_listBatch (hfault : e.fault = .ok) {rows : List IssuedCertificate}
    (hown : Own s subj rows) (hroom : out.length < limit) :
    observe e s (listBatch subj vis limit rows out) = .ok (out ++
      ((rows.filter (vis.shows ·.id)).take (limit - out.length)).map (viewAt s subj e.clock)) := by
  induction rows generalizing out with
  | nil => simp [listBatch]
  | cons c rows ih =>
    obtain ⟨hc, ht⟩ := hown c mem_cons_self
    have hrest : Own s subj rows := fun d hd => hown d (mem_cons_of_mem _ hd)
    unfold listBatch
    cases hshows : vis.shows c.id with
    | false =>
      rw [Bool.not_false, if_pos rfl, ih hrest hroom, filter_cons, hshows]
      rfl
    | true =>
      rw [if_neg (by simp), observe_view hfault hc ht, filter_cons, if_pos hshows]
      obtain ⟨k, hk⟩ : ∃ k, limit - out.length = k + 1 := ⟨limit - out.length - 1, by omega⟩
      rw [hk, take_succ_cons, map_cons]
      split
      · next hfull =>
        obtain rfl : k = 0 := by omega
        simp
      rename_i hfull
      rw [ih hrest (by rw [length_append, length_singleton]; omega),
        length_append, length_singleton,
        show limit - (out.length + 1) = k by omega, append_assoc]
      rfl

theorem listing_after (hdated : Dated s) (hlimit : 0 < f.limit)
    (hlen : f.limit ≤ (listing s t f).length) {last : IssuedCertificate}
    (hlast : ((listing s t f).take f.limit).getLast? = some last) :
    listing s t (behind f last) = (listing s t f).drop f.limit := by
  have hat : (listing s t f)[f.limit - 1]? = some last := by
    rw [getLast?_eq_getElem?, length_take, Nat.min_eq_left hlen,
      getElem?_take_of_lt (by omega)] at hlast
    exact hlast
  have hrow := (mem_listing.1 (mem_of_getElem? hat)).1
  have hbehind := listing_behind (fun _ => true) (by simpa using hat) (hdated last hrow)
  rw [filter_true, filter_true, Nat.sub_add_cancel hlimit] at hbehind
  exact hbehind

theorem fill_append {α β : Type} (out : List β) (view : α → β) (batch rest : List α) {n : Nat}
    (h : out.length ≤ n) :
    (out ++ (batch.take (n - out.length)).map view) ++
      (rest.take (n - (out ++ (batch.take (n - out.length)).map view).length)).map view =
    out ++ ((batch ++ rest).take (n - out.length)).map view := by
  have hroom : n - (out ++ (batch.take (n - out.length)).map view).length =
      n - out.length - batch.length := by
    rw [length_append, length_map, length_take]
    omega
  rw [hroom, take_append, map_append, append_assoc]

theorem observe_listRounds (hfault : e.fault = .ok) (hdated : Dated s) (hlimit : 0 < f.limit)
    (hrounds : (listing s subj.tenantID f).length < rounds) (hroom : out.length ≤ f.limit) :
    observe e s (listRounds subj vis rounds f out) = .ok (out ++
      (((listing s subj.tenantID f).filter (vis.shows ·.id)).take (f.limit - out.length)).map
        (viewAt s subj e.clock)) := by
  induction rounds generalizing f out with
  | zero => exact absurd hrounds (Nat.not_lt_zero _)
  | succ rounds ih =>
    unfold listRounds
    split
    · next hfull => simp [Nat.sub_eq_zero_of_le hfull]
    rename_i hfull
    rw [Sql.listCertificates, observe_query hfault]
    have hrows : sortRows NewerCertificate (s.certificates.rows.filter fun c =>
        c.tenantID == subj.tenantID && Shown f c) = listing s subj.tenantID f := rfl
    simp only [hrows, bind, Except.bind]
    cases hlast : ((listing s subj.tenantID f).take f.limit).getLast? with
    | none =>
      have hnil : listing s subj.tenantID f = [] := by
        rcases take_eq_nil_iff.1 (getLast?_eq_none_iff.1 hlast) with h | h
        · exact absurd h (by omega)
        · exact h
      simp [hnil]
    | some last =>
      show observe e s (listBatch _ _ _ _ _ >>= _) = _
      rw [observe_bind (quiet_listBatch _ _ _ _ _),
        observe_listBatch hfault own_batch (Nat.lt_of_not_le hfull)]
      show observe e s (if _ then _ else _) = _
      split
      · next hshort =>
        have hall : (listing s subj.tenantID f).length ≤ f.limit := by
          rw [length_take] at hshort
          omega
        rw [take_of_length_le hall]
        rfl
      rename_i hwhole
      rw [length_take, Nat.not_lt] at hwhole
      have hlen : f.limit ≤ (listing s subj.tenantID f).length := by omega
      have hdrop := listing_after hdated hlimit hlen hlast
      have hsplit : (listing s subj.tenantID f).filter (vis.shows ·.id) =
          ((listing s subj.tenantID f).take f.limit).filter (vis.shows ·.id) ++
            ((listing s subj.tenantID f).drop f.limit).filter (vis.shows ·.id) := by
        rw [← filter_append, take_append_drop]
      show observe e s (listRounds subj vis rounds (behind f last) _) = _
      rw [ih (f := behind f last) hlimit, hdrop, hsplit]
      · exact congrArg Except.ok (fill_append _ _ _ _ (Nat.le_of_not_le hfull))
      · rw [hdrop, length_drop]
        omega
      rw [length_append, length_map, length_take]
      show _ ≤ f.limit
      omega

/-! ### All pages -/

/-- `ListCertificates` answers with the page once it may make enough rounds. -/
def Answers (e : Env) (s : Database) (subj : Subjects) (f : CertificateFilter)
    (page : List CertificateView × Option Id) : Prop :=
  ∃ n, ∀ rounds, n ≤ rounds → observe e s (listCertificates rounds subj f) = .ok page

/-- Following the cursors from `cur` to the last page shows these certificates. -/
inductive Walk (e : Env) (s : Database) (subj : Subjects) (f : CertificateFilter) :
    Option Id → List CertificateView → Prop
  | last {cur items} : Answers e s subj { f with cursorID := cur } (items, none) →
      Walk e s subj f cur items
  | more {cur next items rest} : Answers e s subj { f with cursorID := cur } (items, some next) →
      Walk e s subj f (some next) rest → Walk e s subj f cur (items ++ rest)

/-- The cursor of the rows from place `k` on. -/
def CursorAt (shown : List IssuedCertificate) (k : Nat) (cur : Option Id) : Prop :=
  (k = 0 ∧ cur = none) ∨ ∃ i x, k = i + 1 ∧ shown[i]? = some x ∧ cur = some x.id

theorem certificateLimit_pos (n : Nat) : 0 < certificateLimit n := by
  unfold certificateLimit
  split <;> omega

theorem observe_accessible {type : ResourceType}
    (hvis : observe e s (readable subj type) = .ok vis) :
    observe e s (listAccessibleIDs subj type) = .ok (vis.ids, vis.all) := by
  unfold readable at hvis
  rw [observe_bind (quiet_listAccessibleIDs _ _)] at hvis
  obtain ⟨⟨ids, all⟩, hids, hv⟩ := bind_eq_ok.1 hvis
  cases hv
  exact hids

/-- The page a walk shows of the rows from its cursor on. -/
def pageOf (limit : Nat) (items : List CertificateView) : List CertificateView × Option Id :=
  (items.take limit,
    if (items.take limit).length = limit then (items.take limit).getLast?.map CertificateView.id
    else none)

theorem observe_page (vis : Visible) (hfault : e.fault = .ok) (hdated : Dated s)
    (hlimit : 0 < f.limit) (hrounds : (listing s subj.tenantID f).length < rounds) : observe e s (do
      let out ← listRounds subj vis rounds f []
      pure (out, if out.length = f.limit then out.getLast?.map CertificateView.id else none)) =
    .ok (pageOf f.limit (((listing s subj.tenantID f).filter (vis.shows ·.id)).map
      (viewAt s subj e.clock))) := by
  rw [observe_bind (quiet_listRounds _ _ _ _ _),
    observe_listRounds hfault hdated hlimit hrounds (Nat.zero_le _)]
  show Except.ok _ = _
  rw [nil_append, length_nil, Nat.sub_zero, map_take]
  rfl

theorem listing_start (hstart : f.cursorTS = 0) :
    listing s t { f with cursorID := cur, limit := limit } = listing s t f := by
  have hshown : ∀ c, Shown { f with cursorID := cur, limit := limit } c = Shown f c := by
    intro c
    simp [Shown, hstart]
  unfold listing
  simp only [hshown]

theorem answers_at (hfault : e.fault = .ok) (hdated : Dated s)
    (hvis : observe e s (readable subj .certificate) = .ok vis) (hstart : f.cursorTS = 0) {k : Nat}
    (hcur : CursorAt ((listing s subj.tenantID f).filter (vis.shows ·.id)) k cur) :
    Answers e s subj { f with cursorID := cur } (pageOf (certificateLimit f.limit)
      ((((listing s subj.tenantID f).filter (vis.shows ·.id)).drop k).map
        (viewAt s subj e.clock))) := by
  refine ⟨s.certificates.rows.length + 1, fun rounds hrounds => ?_⟩
  have hfew : ∀ g, (listing s subj.tenantID g).length < rounds := fun g => by
    unfold listing Sql.sortRows
    rw [length_insertionSort]
    exact Nat.lt_of_le_of_lt (length_filter_le _ _) hrounds
  unfold listCertificates
  rw [observe_bind (quiet_listAccessibleIDs _ _), observe_accessible hvis]
  rcases hcur with ⟨rfl, rfl⟩ | ⟨i, x, rfl, hx, rfl⟩
  · have hpage := observe_page (f := { f with cursorID := none, limit := certificateLimit f.limit })
      vis hfault hdated (certificateLimit_pos _) (hfew _)
    rw [listing_start hstart] at hpage
    exact hpage
  have hxA := mem_filter.1 (mem_of_getElem? hx)
  obtain ⟨hrow, ht, -⟩ := mem_listing.1 hxA.1
  have hpage := observe_page (f := behind { f with limit := certificateLimit f.limit } x)
    vis hfault hdated (certificateLimit_pos _) (hfew _)
  have hbehind : (listing s subj.tenantID
      (behind { f with limit := certificateLimit f.limit } x)).filter (vis.shows ·.id) =
      ((listing s subj.tenantID f).filter (vis.shows ·.id)).drop (i + 1) :=
    listing_behind _ hx (hdated x hrow)
  rw [hbehind] at hpage
  have hcur : observe e s (fetch (Sql.getCertificate subj.tenantID x.id)) = .ok x := by
    rw [observe_fetch, Sql.getCertificate, transact_query hfault]
    exact found_eq_ok.2 (Database.certificate?_eq_some.2 ⟨hrow, rfl, ht⟩)
  have hquiet : Quiet (attempt (fetch (Sql.getCertificate subj.tenantID x.id))) :=
    only_attempt (quiet_fetch (Sql.readOnly_query _))
  show observe e s (if f.cursorTS = 0 then attempt _ >>= _ else _) = _
  rw [if_pos hstart, observe_bind hquiet, observe_attempt, hcur]
  have hshown : vis.shows x.id = true := hxA.2
  simp only [bind, Except.bind, pure, hshown, if_true]
  exact hpage

theorem pageOf_map (view : IssuedCertificate → CertificateView) (hid : ∀ c, (view c).id = c.id)
    (hlimit : 0 < limit) (shown : List IssuedCertificate) (k : Nat) :
    (k + limit ≤ shown.length ∧ ∃ x, shown[k + limit - 1]? = some x ∧
      pageOf limit ((shown.drop k).map view) =
        (((shown.drop k).take limit).map view, some x.id)) ∨
    (shown.length < k + limit ∧
      pageOf limit ((shown.drop k).map view) = ((shown.drop k).map view, none)) := by
  unfold pageOf
  rw [← map_take, length_map, length_take, length_drop]
  by_cases hfull : k + limit ≤ shown.length
  · refine .inl ⟨hfull, shown[k + limit - 1], getElem?_eq_getElem _, ?_⟩
    have hlast : ((shown.drop k).take limit).getLast? = some shown[k + limit - 1] := by
      rw [getLast?_eq_getElem?, length_take, length_drop, Nat.min_eq_left (by omega),
        getElem?_take_of_lt (by omega), getElem?_drop, ← Nat.add_sub_assoc hlimit,
        getElem?_eq_getElem]
    rw [if_pos (by omega), getLast?_map, hlast]
    exact congrArg (Prod.mk _) (congrArg some (hid _))
  have hshort : (shown.drop k).length ≤ limit := by
    rw [length_drop]
    omega
  refine .inr ⟨Nat.lt_of_not_le hfull, ?_⟩
  rw [if_neg (by omega), take_of_length_le hshort]

theorem walk_at (hfault : e.fault = .ok) (hdated : Dated s)
    (hvis : observe e s (readable subj .certificate) = .ok vis) (hstart : f.cursorTS = 0) {k : Nat}
    (hcur : CursorAt ((listing s subj.tenantID f).filter (vis.shows ·.id)) k cur) :
    Walk e s subj f cur ((((listing s subj.tenantID f).filter (vis.shows ·.id)).drop k).map
      (viewAt s subj e.clock)) := by
  have hpos := certificateLimit_pos f.limit
  -- every full page leaves fewer rows
  induction hn : ((listing s subj.tenantID f).filter (vis.shows ·.id)).length - k
      using Nat.strong_induction_on generalizing k cur with
  | _ n ih =>
    have hanswers := answers_at hfault hdated hvis hstart hcur
    rcases pageOf_map (viewAt s subj e.clock) (fun _ => rfl) hpos
      ((listing s subj.tenantID f).filter (vis.shows ·.id)) k with
      ⟨hfull, x, hx, hpage⟩ | ⟨-, hpage⟩
    · rw [hpage] at hanswers
      have hnext : CursorAt ((listing s subj.tenantID f).filter (vis.shows ·.id))
          (k + certificateLimit f.limit) (some x.id) :=
        .inr ⟨_, x, (Nat.sub_add_cancel (Nat.le_add_left_of_le hpos)).symm, hx, rfl⟩
      have hrest := Walk.more hanswers (ih _ (by omega) hnext rfl)
      rw [← map_append, ← drop_drop, take_append_drop] at hrest
      exact hrest
    · rw [hpage] at hanswers
      exact .last hanswers

end Listing

/-! ## The stored status -/

section Statuses

variable (P : Platform) {e : Env} {s : Database} {subj : Subjects} {st : CertStatus}

/-- So long before its end a certificate is expiring. -/
def lead (c : IssuedCertificate) : Duration :=
  min ((c.notAfter - c.notBefore).tdiv 2) expiringWindow

/-- The dates call for the status. -/
def Due (c : IssuedCertificate) (now : Time) : CertStatus → Prop
  | .active => now < c.notAfter ∧ now + lead c < c.notAfter
  | .expiring => now < c.notAfter ∧ c.notAfter ≤ now + lead c
  | .expired => c.notAfter ≤ now
  | .revoked => False

instance (c : IssuedCertificate) (now : Time) : ∀ st, Decidable (Due c now st)
  | .active => inferInstanceAs (Decidable (_ ∧ _))
  | .expiring => inferInstanceAs (Decidable (_ ∧ _))
  | .expired => inferInstanceAs (Decidable (_ ≤ _))
  | .revoked => inferInstanceAs (Decidable False)

/-- The certificate is stored with the status just when its dates call for it. -/
def InStep (st : CertStatus) (now : Time) (c : IssuedCertificate) : Prop :=
  c.status = .revoked ∨ (c.status = st ↔ Due c now st)

instance (st : CertStatus) (now : Time) (c : IssuedCertificate) : Decidable (InStep st now c) :=
  inferInstanceAs (Decidable (_ ∨ _))

/-- The id of a certificate in the caller's read scope whose view shows the status. -/
def ShownAs (e : Env) (s : Database) (subj : Subjects) (st : CertStatus) (id : Id) : Prop :=
  ∃ c ∈ s.certificates.rows, c.tenantID = subj.tenantID ∧ c.id = id ∧
    Lists e s subj .certificate id ∧ (viewAt s subj e.clock c).status = st

/-- The filter of `ListCertificates` by the status. -/
def statusFilter (st : CertStatus) (limit : Nat) : CertificateFilter :=
  ⟨none, "", some st, 0, none, limit⟩

/-- Lists and counters agree with the shown status. -/
structure Agrees (e : Env) (s : Database) (subj : Subjects) (st : CertStatus) : Prop where
  paged : ∀ req, (P.listQuery.new req (certificateList subj.isAdmin)).2 = true →
    ∀ id, OnPages P e s subj ⟨.any, "", certStatusText st⟩ req id ↔ ShownAs e s subj st id
  listed : ∀ limit, ∃ views, Walk e s subj (statusFilter st limit) none views ∧
    ∀ id, (∃ v ∈ views, v.id = id) ↔ ShownAs e s subj st id
  counted : ∀ window, ∃ stats,
    observe e s (fetch (tenantStats subj.tenantID e.clock window)) = .ok stats ∧
    stats.certificates st = s.certificates.rows.countP fun c =>
      c.tenantID == subj.tenantID && deriveStatus c e.clock == st

theorem deriveStatus_eq_iff {now : Time} (h : c.status ≠ .revoked) :
    deriveStatus c now = st ↔ Due c now st := by
  have hlead : (if (c.notAfter - c.notBefore).tdiv 2 < expiringWindow then
      (c.notAfter - c.notBefore).tdiv 2 else expiringWindow) = lead c := by
    unfold lead
    omega
  unfold deriveStatus
  simp only [hlead]
  rw [if_neg h]
  split
  · next hend => cases st <;> simp [Due, hend, Int.not_lt.2 hend]
  rename_i hend
  split
  · next hsoon => cases st <;> simp [Due, hend, hsoon, Int.not_le.1 hend, Int.not_lt.2 hsoon]
  · next hsoon => cases st <;> simp [Due, hend, hsoon, Int.not_le.1 hend, Int.not_le.1 hsoon]

theorem inStep_iff {now : Time} : InStep st now c ↔ (c.status = st ↔ deriveStatus c now = st) := by
  unfold InStep
  by_cases hrev : c.status = .revoked
  · simp [hrev, deriveStatus]
  · rw [deriveStatus_eq_iff hrev, or_iff_right hrev]

theorem shownAs_iff (hc : c ∈ s.certificates.rows) (ht : c.tenantID = subj.tenantID) :
    ShownAs e s subj st c.id ↔
      Lists e s subj .certificate c.id ∧ deriveStatus c e.clock = st := by
  constructor
  · rintro ⟨c', hc', -, hid, hlists, hst⟩
    obtain rfl := Table.eq_of_key_eq hc' hc hid
    exact ⟨hlists, hst⟩
  · rintro ⟨hlists, hst⟩
    exact ⟨c, hc, ht, rfl, hlists, hst⟩

theorem stored_iff_shownAs (hstep : ∀ c ∈ s.certificates.rows, c.tenantID = subj.tenantID →
    InStep st e.clock c) (id : Id) :
    (∃ c, Stored s subj.tenantID st c ∧ c.id = id ∧ Lists e s subj .certificate id) ↔
      ShownAs e s subj st id := by
  constructor
  · rintro ⟨c, ⟨hc, ht, hst⟩, rfl, hlists⟩
    exact (shownAs_iff hc ht).2 ⟨hlists, (inStep_iff.1 (hstep c hc ht)).1 hst⟩
  · rintro ⟨c, hc, ht, rfl, hlists, hst⟩
    exact ⟨c, ⟨hc, ht, (inStep_iff.1 (hstep c hc ht)).2 hst⟩, rfl, hlists⟩

theorem shown_statusFilter : Shown (statusFilter st limit) c = true ↔ c.status = st := by
  simp [shown_iff, statusFilter]

/-- A walk with a status filter shows the certificates in the caller's read scope that are stored
with the status. -/
theorem exists_walk (hfault : e.fault = .ok) (hdated : Dated s) (subj : Subjects) (st : CertStatus)
    (limit : Nat) :
    ∃ views, Walk e s subj (statusFilter st limit) none views ∧ ∀ id, (∃ v ∈ views, v.id = id) ↔
      ∃ c, Stored s subj.tenantID st c ∧ c.id = id ∧ Lists e s subj .certificate id := by
  obtain ⟨vis, hvis, -, hshows⟩ := observe_readable (s := s) hfault subj .certificate
  refine ⟨_, walk_at hfault hdated hvis rfl (.inl ⟨rfl, rfl⟩), fun id => ?_⟩
  have hmem : ∀ c, c ∈ (listing s subj.tenantID (statusFilter st limit)).filter (vis.shows ·.id) ↔
      Stored s subj.tenantID st c ∧ Lists e s subj .certificate c.id := fun c => by
    rw [mem_filter, mem_listing, shown_statusFilter, hshows]
    rfl
  rw [drop_zero]
  constructor
  · rintro ⟨v, hv, rfl⟩
    obtain ⟨c, hc, rfl⟩ := mem_map.1 hv
    exact ⟨c, ((hmem c).1 hc).1, rfl, ((hmem c).1 hc).2⟩
  · rintro ⟨c, hst, rfl, hlists⟩
    exact ⟨_, mem_map_of_mem ((hmem c).2 ⟨hst, hlists⟩), rfl⟩

/-- At a moment, the lists of every caller of a tenant with a status filter, and the counter of the
status, agree with the status that is shown, just when the tenant's certificates are stored with
the status when their dates call for it and only then. -/
theorem status_agrees_iff (hQ : P.listQuery.Lawful) (hfault : e.fault = .ok) (hdated : Dated s)
    (t : Id) (st : CertStatus) :
    (∀ subj : Subjects, subj.tenantID = t → Agrees P e s subj st) ↔
      ∀ c ∈ s.certificates.rows, c.tenantID = t → InStep st e.clock c := by
  constructor
  · -- an administrator reads every certificate of the tenant
    intro hagrees c hc ht
    have hlists : Lists e s ⟨t, "", adminRoles, ""⟩ .certificate c.id := lists_of_admin rfl
    have hvalid := hQ.valid (certificateList true) rfl
    have hpaged := (hagrees ⟨t, "", adminRoles, ""⟩ rfl).paged .zero hvalid c.id
    rw [onPages_iff P hQ hfault hvalid, shownAs_iff hc ht] at hpaged
    rw [inStep_iff]
    constructor
    · intro hst
      exact (hpaged.1 ⟨c, ⟨hc, ht, hst⟩, rfl, hlists⟩).2
    intro hst
    obtain ⟨c', ⟨hc', -, hst'⟩, hid, -⟩ := hpaged.2 ⟨hlists, hst⟩
    exact Table.eq_of_key_eq hc' hc hid ▸ hst'
  · rintro hstep subj rfl
    refine ⟨fun req hreq id => ?_, fun limit => ?_, fun window => ?_⟩
    · rw [onPages_iff P hQ hfault hreq, stored_iff_shownAs hstep]
    · obtain ⟨views, hwalk, hviews⟩ := exists_walk hfault hdated subj st limit
      refine ⟨views, hwalk, fun id => ?_⟩
      rw [hviews, stored_iff_shownAs hstep]
    rw [observe_fetch, tenantStats, transact_query hfault]
    refine ⟨_, rfl, countP_congr fun c hc => ?_⟩
    simp only [Bool.and_eq_true, beq_iff_eq]
    exact and_congr_right fun ht => inStep_iff.1 (hstep c hc ht)

section Sample

open Lcm.Sample

/-- A deployment with one certificate, which ends at 900. -/
def oneCertificate : Database :=
  { database with certificates := ⟨[{ certRow with createdAt := 5 }], by decide⟩ }

/-- At 100 the certificate is active, as it is stored. -/
theorem status_agrees_at_100 : Agrees platform (env 50) oneCertificate admin .active :=
  (status_agrees_iff platform listQuery_lawful rfl (by decide) 1 .active).2 (by decide) admin rfl

/-- At 950 the certificate is shown as expired, and is found and counted as active. -/
theorem expired_listed_active :
    ¬ Agrees platform { env 50 with clock := 950 } oneCertificate admin .active := by
  intro hagrees
  have hpaged := hagrees.paged ⟨1, 25, "", ""⟩ rfl 4
  rw [onPages_iff platform listQuery_lawful rfl rfl] at hpaged
  obtain ⟨c, hc, -, -, -, hst⟩ := hpaged.1 ⟨{ certRow with createdAt := 5 },
    ⟨mem_singleton.2 rfl, rfl, rfl⟩, rfl, lists_of_admin rfl⟩
  obtain rfl := mem_singleton.1 hc
  exact absurd hst (by decide)

end Sample

end Statuses

end Lcm.Issue
