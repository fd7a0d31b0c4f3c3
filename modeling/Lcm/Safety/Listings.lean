import Lcm.Scope
import Lcm.System

/-!
# Hidden records behind the listings

`ListRequests` and `ListJobs` cut a page of the tenant's rows before they drop those the caller
may not read, so a hidden row takes a place on the page and may be the one its cursor names.

* `observe_listPage`: what a listing returns at a moment.
* `listings_agree_iff`: on two stores with the same readable rows a listing returns the same just
  when its page ends at the same place.
* `hidden_row_ends_page`: it need not.
-/

namespace Lcm.Enroll

open Conc Db Svc Authz List

/-- The database's texts of times and ids can be told apart, and a time has no bar in it. -/
structure WritesCursors (P : Platform) : Prop where
  time : ∀ a b, P.formatTime a = P.formatTime b → a = b
  noBar : ∀ a, '|' ∉ (P.formatTime a).toList
  id : ∀ a b, P.uuidText a = P.uuidText b → a = b

variable {P : Platform} {e : Env} {s s' : Database} {subj : Subjects} {ρ υ : Type}

/-! ## Cursors -/

theorem encodeCursor_ne (ts : Time) (id : Id) : encodeCursor P ts id ≠ "" := by
  intro h
  have hlist := congrArg String.toList h
  simp [encodeCursor] at hlist

theorem encodeCursor_inj (hP : WritesCursors P) {ts ts' : Time} {id id' : Id}
    (h : encodeCursor P ts id = encodeCursor P ts' id') : ts = ts' ∧ id = id' := by
  -- what stands before the first bar is the time
  have hcut : ∀ a b, (encodeCursor P a b).toList.takeWhile (· != '|') = (P.formatTime a).toList ∧
      (encodeCursor P a b).toList.dropWhile (· != '|') = '|' :: (P.uuidText b).toList := by
    intro a b
    have hfree : ∀ c ∈ (P.formatTime a).toList, (c != '|') = true := by
      intro c hc
      rw [bne_iff_ne]
      rintro rfl
      exact hP.noBar a hc
    have hlist : (encodeCursor P a b).toList =
        (P.formatTime a).toList ++ '|' :: (P.uuidText b).toList := by
      simp [encodeCursor]
    rw [hlist, takeWhile_append_of_pos hfree, dropWhile_append_of_pos hfree]
    simp
  obtain ⟨htime, hid⟩ := hcut ts id
  obtain ⟨htime', hid'⟩ := hcut ts' id'
  rw [h] at htime hid
  exact ⟨hP.time ts ts' (String.toList_inj.1 (htime.symm.trans htime')),
    hP.id id id' (String.toList_inj.1 (List.cons.inj (hid.symm.trans hid')).2)⟩

/-! ## A page -/

variable (T : Listed ρ)

/-- The row is the last one of a full page: so many of the selected rows are newer. -/
def EndsPage (s : Database) (tenantID : Id) (status : String) (p : Position) (limit : Nat) (x : ρ) :
    Prop :=
  x ∈ T.selected s tenantID status p ∧
    rank T.newer (T.selected s tenantID status p) x = limit - 1

/-- The rows of a table have different ids. -/
def Keyed (s : Database) : Prop := ((T.rows s).map T.id).Nodup

variable {T}

theorem Keyed.apart (h : Keyed T s) (t : Id) (status : String) (p : Position) :
    Apart T.newer (T.selected s t status p) := fun _ ha _ hb hab hba =>
  inj_on_of_nodup_map h (mem_of_mem_filter ha) (mem_of_mem_filter hb)
    (id_eq_of_not_newer T.createdAt T.id hab hba)

theorem Keyed.nodup (h : Keyed T s) (t : Id) (status : String) (p : Position) :
    (T.selected s t status p).Nodup := (List.Nodup.of_map _ h).filter _

theorem sortable_listed : Sortable T.newer := sortable_newestFirst T.createdAt T.id

variable {p : Position} {t : Id} {authorize : ρ → Svc Unit} {f : ListFilter}

theorem nextCursor_page (hkeyed : Keyed T s) (status : String) {limit : Nat} (hlimit : 0 < limit) :
    (∀ x, EndsPage T s t status p limit x →
      nextCursor P T limit ((Sql.sortRows T.newer (T.selected s t status p)).take limit) =
        encodeCursor P (T.createdAt x) (T.id x)) ∧
    ((∀ x, ¬ EndsPage T s t status p limit x) →
      nextCursor P T limit ((Sql.sortRows T.newer (T.selected s t status p)).take limit) = "") := by
  have hat : ∀ x, (Sql.sortRows T.newer (T.selected s t status p))[limit - 1]? = some x ↔
      EndsPage T s t status p limit x := fun x =>
    sortable_listed.getElem?_eq_some_iff (hkeyed.apart t status p) (hkeyed.nodup t status p)
  generalize Sql.sortRows T.newer (T.selected s t status p) = sorted at hat ⊢
  unfold nextCursor
  rw [length_take]
  constructor
  · intro x hx
    obtain ⟨hlt, -⟩ := List.getElem?_eq_some_iff.1 ((hat x).2 hx)
    have hlast : (sorted.take limit).getLast? = some x := by
      rw [getLast?_take, if_neg (by omega), (hat x).2 hx]
      rfl
    rw [if_pos (by omega), hlast]
  intro hnone
  have hshort : sorted[limit - 1]? = none := by
    cases h : sorted[limit - 1]? with
    | none => rfl
    | some x => exact absurd ((hat x).1 h) (hnone x)
  have hle := List.getElem?_eq_none_iff.1 hshort
  rw [if_neg (by omega)]

/-- The row passes the check at a moment. -/
def Passes (e : Env) (s : Database) (authorize : ρ → Svc Unit) (r : ρ) : Prop :=
  observe e s (authorize r) = .ok ()

instance (e : Env) (s : Database) (authorize : ρ → Svc Unit) (r : ρ) :
    Decidable (Passes e s authorize r) :=
  match h : observe e s (authorize r) with
  | .ok () => .isTrue h
  | .error _ => .isFalse fun hok => by cases h.symm.trans hok

theorem quiet_readable (hquiet : ∀ r, Quiet (authorize r)) (view : ρ → υ) (rows : List ρ) :
    Quiet (readable authorize view rows) := by
  induction rows with
  | nil => exact only_pure _
  | cons r rows ih =>
    refine only_bind (only_attempt (hquiet r)) fun allowed => only_bind ih fun out => ?_
    split
    · exact only_pure _
    · exact only_pure _

theorem observe_readable (hquiet : ∀ r, Quiet (authorize r)) (view : ρ → υ) (rows : List ρ) :
    observe e s (readable authorize view rows) =
      .ok ((rows.filter fun r => Passes e s authorize r).map view) := by
  induction rows with
  | nil => rfl
  | cons r rows ih =>
    unfold readable
    rw [observe_bind (only_attempt (hquiet r)), observe_attempt]
    show observe e s _ = _
    rw [observe_bind (quiet_readable hquiet view rows), ih, filter_cons]
    cases hr : observe e s (authorize r) with
    | ok u =>
      have hpasses : Passes e s authorize r := hr
      rw [if_pos (decide_eq_true hpasses)]
      rfl
    | error err =>
      have hnot : ¬ Passes e s authorize r := fun h => by cases hr.symm.trans h
      rw [if_neg (by simpa using hnot)]
      rfl

theorem pageLimit_pos (n : Int) : 0 < pageLimit n := by
  unfold pageLimit
  split <;> omega

/-- The page that a listing cuts. -/
def pageAt (T : Listed ρ) (s : Database) (t : Id) (f : ListFilter) (p : Position) : List ρ :=
  (Sql.sortRows T.newer (T.selected s t f.status p)).take (pageLimit f.limit)

variable (P) in
/-- The place a listing begins at, if its cursor names one. -/
def StartsAt (f : ListFilter) (p : Position) : Prop :=
  ∃ text, decodeCursor P f.cursor = .ok (p.ts, text) ∧ Sql.uuidParam P text = .ok p.id

theorem startsAt_unique {p' : Position} (h : StartsAt P f p) (h' : StartsAt P f p') : p = p' := by
  obtain ⟨text, htext, hid⟩ := h
  obtain ⟨text', htext', hid'⟩ := h'
  obtain ⟨ts, id⟩ := p
  obtain ⟨ts', id'⟩ := p'
  cases htext.symm.trans htext'
  cases hid.symm.trans hid'
  rfl

section Page

variable {authorize : ρ → Svc Unit} {view : ρ → υ} {f : ListFilter}

theorem observe_listPage (hfault : e.fault = .ok) (hquiet : ∀ r, Quiet (authorize r))
    (hp : StartsAt P f p) :
    observe e s (listPage P T authorize view subj f) = .ok (.ok
      (((pageAt T s subj.tenantID f p).filter fun r => Passes e s authorize r).map view,
        nextCursor P T (pageLimit f.limit) (pageAt T s subj.tenantID f p))) := by
  obtain ⟨text, htext, hid⟩ := hp
  unfold listPage
  rw [htext]
  show observe e s (fetch _ >>= _) = _
  rw [Sql.listNewest, observe_query hfault, hid]
  show observe e s _ = _
  rw [observe_bind (quiet_readable hquiet view _), observe_readable hquiet]
  rfl

theorem observe_listPage_nowhere (hfault : e.fault = .ok) (hnot : ∀ p, ¬ StartsAt P f p) :
    observe e s (listPage P T authorize view subj f) =
      observe e s' (listPage P T authorize view subj f) := by
  unfold listPage
  cases hdec : decodeCursor P f.cursor with
  | error err => rfl
  | ok d =>
    obtain ⟨ts, text⟩ := d
    cases hid : Sql.uuidParam P text with
    | ok cur => exact absurd ⟨text, hdec, hid⟩ (hnot ⟨ts, cur⟩)
    | error err =>
      show observe e s (fetch _ >>= _) = observe e s' (fetch _ >>= _)
      rw [Sql.listNewest, observe_query hfault, observe_query hfault, hid]
      rfl

end Page

/-! ## Two stores -/

variable (P T) in
/-- The page of a listing ends at the same place in both stores: at rows with one creation time and
id, or neither store has enough rows to fill it. -/
def SameEnd (s s' : Database) (t : Id) (f : ListFilter) : Prop :=
  ∀ p, StartsAt P f p →
    (∃ x x', EndsPage T s t f.status p (pageLimit f.limit) x ∧
      EndsPage T s' t f.status p (pageLimit f.limit) x' ∧
        T.createdAt x = T.createdAt x' ∧ T.id x = T.id x') ∨
    (∀ x, ¬ EndsPage T s t f.status p (pageLimit f.limit) x) ∧
      ∀ x, ¬ EndsPage T s' t f.status p (pageLimit f.limit) x

/-- The rows of the caller's tenant that pass the check are the same in both stores. -/
def SameReadable (T : Listed ρ) (e : Env) (authorize : ρ → Svc Unit) (t : Id) (s s' : Database) :
    Prop :=
  ∀ r, (r ∈ T.rows s ∧ T.tenantID r = t ∧ Passes e s authorize r) ↔
    (r ∈ T.rows s' ∧ T.tenantID r = t ∧ Passes e s' authorize r)

theorem nextCursor_eq_iff (hP : WritesCursors P) (hkeyed : Keyed T s) (hkeyed' : Keyed T s')
    (hp : StartsAt P f p) :
    nextCursor P T (pageLimit f.limit) (pageAt T s t f p) =
        nextCursor P T (pageLimit f.limit) (pageAt T s' t f p) ↔ SameEnd P T s s' t f := by
  obtain ⟨hsome, hnone⟩ := nextCursor_page (P := P) (t := t) (p := p) hkeyed f.status
    (pageLimit_pos f.limit)
  obtain ⟨hsome', hnone'⟩ := nextCursor_page (P := P) (t := t) (p := p) hkeyed' f.status
    (pageLimit_pos f.limit)
  unfold pageAt SameEnd
  constructor
  · intro heq p' hp'
    obtain rfl := startsAt_unique hp' hp
    by_cases hx : ∃ x, EndsPage T s t f.status p' (pageLimit f.limit) x <;>
      by_cases hx' : ∃ x, EndsPage T s' t f.status p' (pageLimit f.limit) x
    · obtain ⟨x, hx⟩ := hx
      obtain ⟨x', hx'⟩ := hx'
      rw [hsome x hx, hsome' x' hx'] at heq
      exact .inl ⟨x, x', hx, hx', encodeCursor_inj hP heq⟩
    · obtain ⟨x, hx⟩ := hx
      rw [hsome x hx, hnone' (not_exists.1 hx')] at heq
      exact absurd heq (encodeCursor_ne _ _)
    · obtain ⟨x', hx'⟩ := hx'
      rw [hnone (not_exists.1 hx), hsome' x' hx'] at heq
      exact absurd heq.symm (encodeCursor_ne _ _)
    · exact .inr ⟨not_exists.1 hx, not_exists.1 hx'⟩
  · intro hend
    rcases hend p hp with ⟨x, x', hx, hx', hts, hid⟩ | ⟨hx, hx'⟩
    · rw [hsome x hx, hsome' x' hx', hts, hid]
    · rw [hnone hx, hnone' hx']

theorem shown_eq_of_sameEnd (hkeyed : Keyed T s) (hkeyed' : Keyed T s')
    (hsame : SameReadable T e authorize t s s') (hp : StartsAt P f p) (hend : SameEnd P T s s' t f)
    : ((pageAt T s t f p).filter fun r => Passes e s authorize r) =
      (pageAt T s' t f p).filter fun r => Passes e s' authorize r := by
  have hshown : ∀ r, (r ∈ T.selected s t f.status p ∧ decide (Passes e s authorize r) = true) ↔
      (r ∈ T.selected s' t f.status p ∧ decide (Passes e s' authorize r) = true) := by
    intro r
    have hr := hsame r
    simp only [Listed.selected, mem_filter, Bool.and_eq_true, beq_iff_eq, decide_eq_true_eq]
    tauto
  have hlimit : pageLimit f.limit - 1 + 1 = pageLimit f.limit :=
    Nat.sub_add_cancel (pageLimit_pos f.limit)
  unfold pageAt Sql.sortRows
  rw [← hlimit]
  refine sortable_listed.filter_take_eq (hkeyed.apart t f.status p) (hkeyed'.apart t f.status p)
    (hkeyed.nodup t f.status p) (hkeyed'.nodup t f.status p) hshown ?_
  rcases hend p hp with ⟨x, x', hx, hx', hts, hid⟩ | ⟨hx, hx'⟩
  · refine .inl ⟨x, x', hx, hx', fun y => ?_⟩
    unfold Listed.newer NewestFirst
    rw [hts, hid]
  · exact .inr ⟨fun x hmem hrank => hx x ⟨hmem, hrank⟩, fun x hmem hrank => hx' x ⟨hmem, hrank⟩⟩

/-- A listing returns the same on two stores with the same readable rows just when its page ends at
the same place. -/
theorem listPage_agree_iff (hP : WritesCursors P) (hfault : e.fault = .ok) (hkeyed : Keyed T s)
    (hkeyed' : Keyed T s') (hquiet : ∀ r, Quiet (authorize r))
    (hsame : SameReadable T e authorize subj.tenantID s s') (view : ρ → υ) (f : ListFilter) :
    observe e s (listPage P T authorize view subj f) =
        observe e s' (listPage P T authorize view subj f) ↔
      SameEnd P T s s' subj.tenantID f := by
  by_cases hstart : ∃ p, StartsAt P f p
  · obtain ⟨p, hp⟩ := hstart
    rw [observe_listPage hfault hquiet hp, observe_listPage hfault hquiet hp,
      ← nextCursor_eq_iff hP hkeyed hkeyed' hp]
    constructor
    · intro heq
      exact (Prod.mk.inj (Except.ok.inj (Except.ok.inj heq))).2
    intro hnext
    have hend := (nextCursor_eq_iff hP hkeyed hkeyed' hp).1 hnext
    rw [shown_eq_of_sameEnd hkeyed hkeyed' hsame hp hend, hnext]
  · have hnot := not_exists.1 hstart
    exact ⟨fun _ p hp => absurd hp (hnot p), fun _ => observe_listPage_nowhere hfault hnot⟩

/-- On two stores in which the caller may read the same requests and jobs, `ListRequests` and
`ListJobs` return the same for every status, cursor and limit just when the page ends at the same
place in both. -/
theorem listings_agree_iff (hP : WritesCursors P) (hfault : e.fault = .ok) (subj : Subjects)
    (s s' : Database)
    (hrequests : SameReadable requestTable e (authorizeReadRequest P subj) subj.tenantID s s')
    (hjobs : SameReadable jobTable e (fun j => authorizeJob P subj j .read) subj.tenantID s s')
    (f : ListFilter) :
    (observe e s (listRequests P subj f) = observe e s' (listRequests P subj f) ↔
      SameEnd P requestTable s s' subj.tenantID f) ∧
    (observe e s (listJobs P subj f) = observe e s' (listJobs P subj f) ↔
      SameEnd P jobTable s s' subj.tenantID f) := by
  have hkeyed : ∀ s, Keyed requestTable s := fun s => s.requests.nodup
  have hkeyed' : ∀ s, Keyed jobTable s := fun s => s.jobs.nodup
  constructor
  · exact listPage_agree_iff hP hfault (hkeyed s) (hkeyed s') (quiet_authorizeReadRequest P subj)
      hrequests requestView f
  · exact listPage_agree_iff hP hfault (hkeyed' s) (hkeyed' s')
      (fun j => quiet_authorizeJob P subj j .read) hjobs jobView f

/-! ## One hidden request -/

section Sample

open Lcm.Sample

theorem unary_inj {a b : Int} (h : unary a = unary b) : a = b := by
  have hread : ∀ n, ofUnary (unary n) = some n := by
    intro n
    cases n with
    | ofNat n | negSucc n => simp [unary, ofUnary]
  exact Option.some.inj ((hread a).symm.trans (h ▸ hread b))

theorem platform_writesCursors : WritesCursors platform where
  time _ _ := unary_inj
  noBar a := by
    show '|' ∉ (unary a).toList
    cases a with
    | ofNat n | negSucc n => simp [unary]
  id a b h := by
    have hint : (a : Int) = b := unary_inj h
    exact Int.ofNat.inj hint

/-- A user of the tenant who may read nothing. -/
def outsider : Subjects := ⟨1, "carl", [], ""⟩

theorem sameReadable_requests : SameReadable requestTable (env 60)
    (authorizeReadRequest platform outsider) outsider.tenantID withRequest database := by
  intro r
  constructor
  · rintro ⟨hr, -, hpasses⟩
    obtain rfl := mem_singleton.1 hr
    exact absurd hpasses (by decide)
  · rintro ⟨hr, -⟩
    cases hr

theorem sameReadable_jobs : SameReadable jobTable (env 60)
    (fun j => authorizeJob platform outsider j .read) outsider.tenantID withRequest database := by
  intro j
  constructor
  · rintro ⟨hj, -⟩
    cases hj
  · rintro ⟨hj, -⟩
    cases hj

/-- A page of two is filled by neither store. -/
theorem listings_agree_short :
    observe (env 60) withRequest (listRequests platform outsider ⟨"", "", 2⟩) =
      observe (env 60) database (listRequests platform outsider ⟨"", "", 2⟩) := by
  refine (listings_agree_iff platform_writesCursors rfl outsider withRequest database
    sameReadable_requests sameReadable_jobs ⟨"", "", 2⟩).1.2 ?_
  rintro ⟨ts, id⟩ ⟨text, htext, hid⟩
  cases htext
  cases hid
  refine .inr ⟨?_, ?_⟩
  · rintro x ⟨hx, hrank⟩
    exact absurd hrank (by revert x; decide)
  · rintro x ⟨hx, -⟩
    cases hx

/-- On a page of one the hidden request leaves its cursor. -/
theorem hidden_row_ends_page :
    SameReadable requestTable (env 60) (authorizeReadRequest platform outsider) outsider.tenantID
        withRequest database ∧
      SameReadable jobTable (env 60) (fun j => authorizeJob platform outsider j .read)
        outsider.tenantID withRequest database ∧
      observe (env 60) withRequest (listRequests platform outsider ⟨"", "", 1⟩) ≠
        observe (env 60) database (listRequests platform outsider ⟨"", "", 1⟩) := by
  refine ⟨sameReadable_requests, sameReadable_jobs, ?_⟩
  decide

end Sample

end Lcm.Enroll
