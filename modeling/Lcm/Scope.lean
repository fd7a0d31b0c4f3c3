import Lcm.Lists
import Lcm.Pages

/-!
# The read scope of requests and jobs

`PageRequests` and `PageJobs` of `enroll`. The caller's read scope over the requests is worked
out once, as a condition the database can check on every row: the issuers the caller may read,
and the trust domains whose default issuer they may read. The condition is a text match on the
SPIFFE ID where the check of a single request parses it.
-/

namespace Lcm

open Db Svc List Sql

variable (P : Platform)

/-! ## The statements -/

structure RequestScope where
  actor : String
  allPinned : Bool
  issuers : List Id
  defaultDomains : List String
  allJobs : Bool

namespace Sql

/-- The path part of `SpiffeShape`: `/[^?#]+$`. -/
def pathShape : List Char → Bool
  | '/' :: path => !path.isEmpty && path.all fun c => c != '?' && c != '#'
  | _ => false

/-- The match with `SpiffeShape`: `^spiffe://[a-z0-9.-]+/[^?#]+$`. -/
def spiffeShape (s : String) : Bool :=
  match s.toList.dropPrefix? "spiffe://".toList with
  | none => false
  | some rest =>
    !(rest.takeWhile Csr.trustDomainChar).isEmpty && pathShape (rest.dropWhile Csr.trustDomainChar)

/-- The field behind `n` separators, as `split_part` counts them from one. -/
def splitPart (sep : Char) : Nat → List Char → List Char
  | 0, s => s.takeWhile (· != sep)
  | n + 1, s => splitPart sep n (s.dropWhile (· != sep)).tail

/-- `split_part(spiffe_id, '/', 3)`. -/
def domainField (s : String) : String := String.ofList (splitPart '/' 2 s.toList)

def requestIssuerReadable (sc : RequestScope) (r : CertificateRequest) : Bool :=
  match r.issuerID with
  | some id => sc.allPinned || sc.issuers.contains id
  | none => spiffeShape r.spiffeID && sc.defaultDomains.contains (domainField r.spiffeID)

end Sql

def requestList : ListSpec where
  fields := [("identity", ⟨true, false, false⟩), ("kind", column false), ("status", column false),
    ("created_at", column true)]
  default := "created_at"

/-- `COALESCE(r.spiffe_id, r.sans->>0)`; the empty SPIFFE ID is stored as NULL. -/
def requestIdentity (r : CertificateRequest) : Option String :=
  if r.spiffeID ≠ "" then some r.spiffeID else r.sans.head?

/-- The sort expressions of the request pages. -/
def requestKey (field : String) (r : CertificateRequest) : SortKey :=
  if field = "identity" then textKey (requestIdentity r)
  else if field = "kind" then .text (certKindText (defaultKind r.kind))
  else if field = "status" then .text (Enroll.requestStatusText r.status)
  else .number r.createdAt

def jobList : ListSpec where
  fields := [("type", column false), ("status", column false), ("attempts", column true),
    ("run_after", column true), ("created_at", column true)]
  default := "created_at"

def jobTypeText : JobType → String
  | .issue => "issue"
  | .renew => "renew"
  | .acme => "acme"

/-- The sort expressions of the job pages. -/
def jobKey (field : String) (j : CertificateJob) : SortKey :=
  if field = "type" then .text (jobTypeText j.type)
  else if field = "status" then .text (Enroll.jobStatusText j.status)
  else if field = "attempts" then .number j.attempts
  else if field = "run_after" then .number j.runAfter
  else .number j.createdAt

namespace Sql

/-- The condition of the request pages. -/
def admitsRequest (tenantID : Id) (status : String) (sc : RequestScope) (r : CertificateRequest) :
    Bool :=
  r.tenantID == tenantID && admitsText status (Enroll.requestStatusText r.status) &&
    ((sc.actor != "" && r.requestedBy == sc.actor) || requestIssuerReadable sc r)

def pageRequests (tenantID : Id) (status : String) (sc : RequestScope) (req : PageRequest) :
    Sql (List CertificateRequest × Nat × PageRequest) :=
  Tx.query fun db => .ok (P.listQuery.page requestList req requestKey
    CertificateRequest.id (db.requests.rows.filter (admitsRequest tenantID status sc)))

/-- The condition of the job pages: the scope without the requester and the pinned issuers of
every tenant. -/
def admitsJob (db : Database) (tenantID : Id) (status : String) (sc : RequestScope)
    (j : CertificateJob) : Bool :=
  j.tenantID == tenantID && admitsText status (Enroll.jobStatusText j.status) &&
    (sc.allJobs || db.requests.rows.any fun r => r.tenantID == j.tenantID && r.id == j.requestID &&
      requestIssuerReadable ⟨"", false, sc.issuers, sc.defaultDomains, false⟩ r)

def pageJobs (tenantID : Id) (status : String) (sc : RequestScope) (req : PageRequest) :
    Sql (List CertificateJob × Nat × PageRequest) :=
  Tx.query fun db => .ok (P.listQuery.page jobList req jobKey CertificateJob.id
    (db.jobs.rows.filter (admitsJob db tenantID status sc)))

end Sql

/-! ## The service -/

namespace Enroll

open Authz

def issuerPageSize : Nat := 200

/-- The loop of `scope`: the trust domains whose default issuer is visible. Every round but the
last moves past a whole page of issuers, so `rounds` bounds the number of pages. -/
def defaultDomains (tenantID : Id) (vis : Visible) :
    Nat → String → List String → Svc (List String)
  | 0, _, out => pure out
  | rounds + 1, after, out => do
    let page ← fetch (listIssuers P tenantID after issuerPageSize)
    let found := (page.filter fun i => i.isDefault && vis.shows i.id).map Issuer.trustDomain
    if page.length < issuerPageSize then pure (out ++ found)
    else match page.getLast? with
      | none => pure (out ++ found)
      | some last => defaultDomains tenantID vis rounds last.name (out ++ found)

def scope (rounds : Nat) (subj : Subjects) : Svc RequestScope := do
  let (ids, all) ← listAccessibleIDs subj .issuer
  let domains ← defaultDomains P subj.tenantID ⟨all, ids⟩ rounds "" []
  pure ⟨subj.actorID, all, if all then [] else ids, domains, all⟩

def pageRequests (rounds : Nat) (subj : Subjects) (status : String) (req : PageRequest) :
    Svc (Page RequestView) := do
  let sc ← scope P rounds subj
  let (rows, total, applied) ← fetch (Sql.pageRequests P subj.tenantID status sc req)
  pure ⟨rows.map requestView, total, applied⟩

/-- `PageJobs`; there is no requester exception for jobs. -/
def pageJobs (rounds : Nat) (subj : Subjects) (status : String) (req : PageRequest) :
    Svc (Page JobView) := do
  let sc ← scope P rounds subj
  let (rows, total, applied) ← fetch
    (Sql.pageJobs P subj.tenantID status { sc with actor := "" } req)
  pure ⟨rows.map jobView, total, applied⟩

/-! ## The scope at a moment -/

end Enroll

/-- The database orders texts, and the empty one comes first. -/
structure OrdersTexts : Prop where
  irrefl : ∀ a, P.sqlLess a a = false
  trans : ∀ a b c, P.sqlLess a b = true → P.sqlLess b c = true → P.sqlLess a c = true
  total : ∀ a b, a ≠ b → P.sqlLess a b = true ∨ P.sqlLess b a = true
  empty : ∀ a, a ≠ "" → P.sqlLess (P.sqlLower "") (P.sqlLower a) = true

/-- The constraints of the table of issuers: its unique indexes, and that names are not empty. -/
structure Database.Indexed (s : Database) : Prop where
  oneName : ∀ i ∈ s.issuers.rows, ∀ j ∈ s.issuers.rows, i.tenantID = j.tenantID →
    P.sqlLower i.name = P.sqlLower j.name → i = j
  oneDefault : ∀ i ∈ s.issuers.rows, ∀ j ∈ s.issuers.rows, i.isDefault = true →
    j.isDefault = true → i.tenantID = j.tenantID → i.trustDomain = j.trustDomain → i = j
  named : ∀ i ∈ s.issuers.rows, i.name ≠ ""

variable {P}

theorem Database.Indexed.congr {s s' : Database} (h : s.Indexed P) (heq : s'.issuers = s.issuers) :
    s'.Indexed P :=
  ⟨heq ▸ h.oneName, heq ▸ h.oneDefault, heq ▸ h.named⟩

namespace OrdersTexts

theorem not_less_iff (h : OrdersTexts P) {a b : String} :
    P.sqlLess a b = false ↔ a = b ∨ P.sqlLess b a = true := by
  constructor
  · intro hab
    by_cases heq : a = b
    · exact .inl heq
    · exact .inr ((h.total a b heq).resolve_left (by simp [hab]))
  rintro (rfl | hba)
  · exact h.irrefl a
  cases hab : P.sqlLess a b with
  | false => rfl
  | true => exact absurd (h.trans a b a hab hba) (by simp [h.irrefl])

variable {ρ : Type} {name : ρ → String} {id : ρ → Id}

theorem nameBefore_eq_false_iff (h : OrdersTexts P) {a b : ρ} :
    NameBefore P name id a b = false ↔
      P.sqlLess (P.sqlLower (name b)) (P.sqlLower (name a)) = true ∨
        (P.sqlLower (name a) = P.sqlLower (name b) ∧ id b ≤ id a) := by
  unfold NameBefore
  rw [Bool.or_eq_false_iff, h.not_less_iff, Bool.and_eq_false_iff]
  constructor
  · rintro ⟨heq | hlt, hid⟩
    · refine .inr ⟨heq, ?_⟩
      simpa [heq] using hid
    · exact .inl hlt
  rintro (hlt | ⟨heq, hid⟩)
  · refine ⟨.inr hlt, .inl ?_⟩
    rw [beq_eq_false_iff_ne]
    intro heq
    rw [heq, h.irrefl] at hlt
    cases hlt
  · exact ⟨.inl heq, .inr (by simpa using hid)⟩

theorem sortable (h : OrdersTexts P) (name : ρ → String) (id : ρ → Id) :
    Sortable (NameBefore P name id) := by
  constructor
  · intro a b hab
    unfold NameBefore at hab
    simp only [Bool.or_eq_true, Bool.and_eq_true, beq_iff_eq, decide_eq_true_eq] at hab
    rw [h.nameBefore_eq_false_iff]
    exact hab.imp_right fun hid => ⟨hid.1.symm, Nat.le_of_lt hid.2⟩
  intro a b c hba hcb
  rw [h.nameBefore_eq_false_iff] at hba hcb ⊢
  rcases hba with hab | ⟨heq, hid⟩ <;> rcases hcb with hbc | ⟨heq', hid'⟩
  · exact .inl (h.trans _ _ _ hab hbc)
  · exact .inl (heq' ▸ hab)
  · exact .inl (heq ▸ hbc)
  · exact .inr ⟨heq'.trans heq, Nat.le_trans hid hid'⟩

end OrdersTexts

variable {after : String} {rounds : Nat}

namespace Enroll

open Authz

section Moment

variable {e : Env} {s : Database} {subj : Subjects} {t : Id} {vis : Visible} {sc : RequestScope}

variable (P) in
/-- The issuers of the tenant behind a name, as they are listed. -/
def issuersAfter (s : Database) (t : Id) (after : String) : List Issuer :=
  sortRows (NameBefore P Issuer.name Issuer.id) (s.issuers.rows.filter fun i =>
    i.tenantID == t && P.sqlLess (P.sqlLower after) (P.sqlLower i.name))

theorem mem_issuersAfter {i : Issuer} :
    i ∈ issuersAfter P s t after ↔ i ∈ s.issuers.rows ∧ i.tenantID = t ∧
      P.sqlLess (P.sqlLower after) (P.sqlLower i.name) = true := by
  unfold issuersAfter sortRows
  rw [mem_insertionSort, mem_filter, Bool.and_eq_true, beq_iff_eq]

theorem apart_names (hord : OrdersTexts P) (p : Issuer → Bool) :
    Apart (NameBefore P Issuer.name Issuer.id) (s.issuers.rows.filter p) := by
  intro a ha b hb hab hba
  rw [hord.nameBefore_eq_false_iff] at hab hba
  refine Table.eq_of_key_eq (mem_of_mem_filter ha) (mem_of_mem_filter hb) ?_
  have hirrefl := hord.irrefl
  rcases hab with hlt | ⟨heq, hid⟩ <;> rcases hba with hlt' | ⟨heq', hid'⟩
  · exact absurd (hord.trans _ _ _ hlt hlt') (by simp [hirrefl])
  · rw [heq', hirrefl] at hlt
    cases hlt
  · rw [heq, hirrefl] at hlt'
    cases hlt'
  · exact Nat.le_antisymm hid' hid

theorem issuersAfter_name (hord : OrdersTexts P) (hidx : s.Indexed P) {n : Nat} {x : Issuer}
    (hx : (issuersAfter P s t after)[n]? = some x) :
    issuersAfter P s t x.name = (issuersAfter P s t after).drop (n + 1) := by
  obtain ⟨hrow, ht, hafter⟩ := mem_issuersAfter.1 (mem_of_getElem? hx)
  have hrows : s.issuers.rows.filter (fun i => i.tenantID == t &&
      P.sqlLess (P.sqlLower x.name) (P.sqlLower i.name)) =
      (s.issuers.rows.filter fun i => i.tenantID == t &&
        P.sqlLess (P.sqlLower after) (P.sqlLower i.name)).filter
          (NameBefore P Issuer.name Issuer.id x) := by
    rw [filter_filter]
    refine filter_congr fun i hi => ?_
    rw [Bool.eq_iff_iff]
    simp only [NameBefore, Bool.and_eq_true, Bool.or_eq_true, beq_iff_eq, decide_eq_true_eq]
    constructor
    · rintro ⟨hti, hlt⟩
      exact ⟨.inl hlt, hti, hord.trans _ _ _ hafter hlt⟩
    rintro ⟨hlt | ⟨heq, hid⟩, hti, -⟩
    · exact ⟨hti, hlt⟩
    · rw [hidx.oneName x hrow i hi (ht.trans hti.symm) heq] at hid
      exact absurd hid (Nat.lt_irrefl _)
  have hsort := hord.sortable Issuer.name Issuer.id
  have hnodup : (s.issuers.rows.filter fun i => i.tenantID == t &&
      P.sqlLess (P.sqlLower after) (P.sqlLower i.name)).Nodup :=
    (List.Nodup.of_map _ s.issuers.nodup).filter _
  unfold issuersAfter sortRows at hx ⊢
  rw [hrows, hsort.insertionSort_filter (apart_names hord _),
    hsort.filter_less_eq_drop (apart_names hord _) hnodup hx]

theorem quiet_defaultDomains (t : Id) (vis : Visible) (rounds : Nat) (after : String)
    (out : List String) : Quiet (defaultDomains P t vis rounds after out) := by
  induction rounds generalizing after out with
  | zero => exact only_pure _
  | succ rounds ih =>
    refine only_bind (quiet_fetch (readOnly_query _)) fun page => ?_
    refine only_ite (only_pure _) ?_
    split
    · exact only_pure _
    · exact ih _ _

/-- The trust domains of the default issuers that are visible. -/
def visibleDomains (vis : Visible) (issuers : List Issuer) : List String :=
  (issuers.filter fun i => i.isDefault && vis.shows i.id).map Issuer.trustDomain

theorem observe_defaultDomains (hfault : e.fault = .ok) (hord : OrdersTexts P) (hidx : s.Indexed P)
    (hrounds : (issuersAfter P s t after).length < rounds) (out : List String) :
    observe e s (defaultDomains P t vis rounds after out) =
      .ok (out ++ visibleDomains vis (issuersAfter P s t after)) := by
  induction rounds generalizing after out with
  | zero => exact absurd hrounds (Nat.not_lt_zero _)
  | succ rounds ih =>
    unfold defaultDomains
    rw [listIssuers, observe_query hfault]
    change observe e s (if ((issuersAfter P s t after).take issuerPageSize).length < issuerPageSize
      then pure (out ++ visibleDomains vis ((issuersAfter P s t after).take issuerPageSize))
      else match ((issuersAfter P s t after).take issuerPageSize).getLast? with
        | none => pure (out ++ visibleDomains vis ((issuersAfter P s t after).take issuerPageSize))
        | some last => defaultDomains P t vis rounds last.name
          (out ++ visibleDomains vis ((issuersAfter P s t after).take issuerPageSize))) = _
    split
    · next hshort =>
      have hall : (issuersAfter P s t after).length ≤ issuerPageSize := by
        rw [length_take] at hshort
        omega
      rw [take_of_length_le hall]
      rfl
    rename_i hwhole
    have hlen : issuerPageSize ≤ (issuersAfter P s t after).length := by
      rw [length_take] at hwhole
      omega
    have hpos : 0 < issuerPageSize := by decide
    obtain ⟨last, hlast⟩ : ∃ last, (issuersAfter P s t after)[issuerPageSize - 1]? = some last :=
      ⟨_, getElem?_eq_getElem (by omega)⟩
    have hgetLast : ((issuersAfter P s t after).take issuerPageSize).getLast? = some last := by
      rw [getLast?_eq_getElem?, length_take, Nat.min_eq_left hlen,
        getElem?_take_of_lt (by omega)]
      exact hlast
    have hdrop := issuersAfter_name hord hidx hlast
    rw [Nat.sub_add_cancel hpos] at hdrop
    rw [hgetLast]
    show observe e s (defaultDomains P t vis rounds last.name _) = _
    rw [ih, hdrop, append_assoc, visibleDomains, visibleDomains, ← map_append,
      ← filter_append, take_append_drop]
    · rfl
    · rw [hdrop, length_drop]
      omega

theorem mem_visibleDomains (hord : OrdersTexts P) (hidx : s.Indexed P) {td : String} :
    td ∈ visibleDomains vis (issuersAfter P s t "") ↔ ∃ i ∈ s.issuers.rows, i.tenantID = t ∧
      i.isDefault = true ∧ i.trustDomain = td ∧ vis.shows i.id = true := by
  unfold visibleDomains
  simp only [mem_map, mem_filter, mem_issuersAfter, Bool.and_eq_true]
  constructor
  · rintro ⟨i, ⟨⟨hi, ht, -⟩, hdef, hshows⟩, htd⟩
    exact ⟨i, hi, ht, hdef, htd, hshows⟩
  · rintro ⟨i, hi, ht, hdef, htd, hshows⟩
    exact ⟨i, ⟨⟨hi, ht, hord.empty i.name (hidx.named i hi)⟩, hdef, hshows⟩, htd⟩

/-- `scope` at a moment: what it says of the requests. -/
structure IsScope (e : Env) (s : Database) (subj : Subjects) (sc : RequestScope) : Prop where
  actor : sc.actor = subj.actorID
  allPinned : sc.allPinned = subj.isAdmin
  allJobs : sc.allJobs = subj.isAdmin
  issuers : subj.isAdmin = false → ∀ id, id ∈ sc.issuers ↔ Lists e s subj .issuer id
  defaultDomains : ∀ td, td ∈ sc.defaultDomains ↔ ∃ i ∈ s.issuers.rows,
    i.tenantID = subj.tenantID ∧ i.isDefault = true ∧ i.trustDomain = td ∧
      Lists e s subj .issuer i.id

theorem quiet_scope (rounds : Nat) (subj : Subjects) : Quiet (scope P rounds subj) :=
  only_bind (quiet_listAccessibleIDs _ _) fun _ =>
    only_bind (quiet_defaultDomains _ _ _ _ _) fun _ => only_pure _

theorem observe_scope (hfault : e.fault = .ok) (hord : OrdersTexts P) (hidx : s.Indexed P)
    (subj : Subjects) : ∃ sc, IsScope e s subj sc ∧
      ∀ rounds, s.issuers.rows.length < rounds → observe e s (scope P rounds subj) = .ok sc := by
  have hfew : (issuersAfter P s subj.tenantID "").length ≤ s.issuers.rows.length := by
    unfold issuersAfter sortRows
    rw [length_insertionSort]
    exact length_filter_le _ _
  -- with the ids that are listed, the rest of the scope follows
  have hscope : ∀ ids all, observe e s (listAccessibleIDs subj .issuer) = .ok (ids, all) →
      ∀ rounds, s.issuers.rows.length < rounds → observe e s (scope P rounds subj) =
        .ok ⟨subj.actorID, all, if all then [] else ids,
          visibleDomains ⟨all, ids⟩ (issuersAfter P s subj.tenantID ""), all⟩ := by
    intro ids all hids rounds hrounds
    unfold scope
    rw [observe_bind (quiet_listAccessibleIDs _ _), hids]
    show observe e s _ = _
    rw [observe_bind (quiet_defaultDomains _ _ _ _ _),
      observe_defaultDomains hfault hord hidx (Nat.lt_of_le_of_lt hfew hrounds)]
    rfl
  cases hadmin : subj.isAdmin with
  | true =>
    refine ⟨_, ⟨rfl, hadmin.symm, hadmin.symm, ?_, fun td => ?_⟩,
      hscope [] true (observe_listAccessibleIDs_admin hadmin _)⟩
    · intro h
      cases hadmin.symm.trans h
    · rw [mem_visibleDomains hord hidx]
      simp [Visible.shows, lists_of_admin hadmin]
  | false =>
    obtain ⟨ids, hids, hmem⟩ := observe_listAccessibleIDs hfault hadmin .issuer
    have hlists : ∀ id, id ∈ ids ↔ Lists e s subj .issuer id := fun id => by
      rw [hmem, lists_iff hfault hadmin]
    refine ⟨_, ⟨rfl, hadmin.symm, hadmin.symm, fun _ => hlists, fun td => ?_⟩,
      hscope ids false hids⟩
    rw [mem_visibleDomains hord hidx]
    simp [Visible.shows, hlists]

theorem observe_pageRequests (hfault : e.fault = .ok)
    (hsc : observe e s (scope P rounds subj) = .ok sc) (status : String) (req : PageRequest) :
    observe e s (pageRequests P rounds subj status req) =
      let page := P.listQuery.page requestList req requestKey CertificateRequest.id
        (s.requests.rows.filter (admitsRequest subj.tenantID status sc))
      .ok ⟨page.1.map requestView, page.2.1, page.2.2⟩ := by
  unfold pageRequests
  rw [observe_bind (quiet_scope _ _), hsc]
  show observe e s _ = _
  rw [Sql.pageRequests, observe_query hfault]
  rfl

theorem observe_pageJobs (hfault : e.fault = .ok) (hsc : observe e s (scope P rounds subj) = .ok sc)
    (status : String) (req : PageRequest) : observe e s (pageJobs P rounds subj status req) =
      let page := P.listQuery.page jobList req jobKey CertificateJob.id
        (s.jobs.rows.filter (admitsJob s subj.tenantID status { sc with actor := "" }))
      .ok ⟨page.1.map jobView, page.2.1, page.2.2⟩ := by
  unfold pageJobs
  rw [observe_bind (quiet_scope _ _), hsc]
  show observe e s _ = _
  rw [Sql.pageJobs, observe_query hfault]
  rfl

/-! ## The checks at a moment -/

variable (P) in
def issuerOf (s : Database) (t : Id) (r : CertificateRequest) : Option Id :=
  match r.issuerID with
  | some id => some id
  | none => (Csr.parseSPIFFEID P r.spiffeID).bind fun sid =>
    (s.issuers.rows.find? fun i =>
      i.tenantID == t && i.trustDomain == sid.trustDomain && i.isDefault).map Issuer.id

theorem observe_requestIssuerID (hfault : e.fault = .ok) (t : Id) (r : CertificateRequest) :
    observe e s (requestIssuerID P t r) = (issuerOf P s t r).elim (.error .notFound) .ok := by
  unfold requestIssuerID issuerOf
  cases r.issuerID with
  | some id => rfl
  | none =>
    cases Csr.parseSPIFFEID P r.spiffeID with
    | none => rfl
    | some sid =>
      show observe e s (fetch (defaultIssuer t sid.trustDomain) >>= _) = _
      rw [defaultIssuer, observe_query hfault]
      show (found (s.issuers.rows.find? _) >>= _) = _
      simp only [Option.bind_some]
      cases s.issuers.rows.find? fun i =>
        i.tenantID == t && i.trustDomain == sid.trustDomain && i.isDefault with
      | none | some i => rfl

/-- The caller has asked for the certificate. -/
def Asked (subj : Subjects) (r : CertificateRequest) : Prop :=
  subj.actorID ≠ "" ∧ r.requestedBy = subj.actorID

theorem authorizeReadRequest_iff (hfault : e.fault = .ok) (r : CertificateRequest) :
    observe e s (authorizeReadRequest P subj r) = .ok () ↔ Asked subj r ∨
      ∃ id, issuerOf P s subj.tenantID r = some id ∧ Permitted s subj .issuer id .read e.clock := by
  unfold authorizeReadRequest
  by_cases hasked : subj.actorID ≠ "" ∧ r.requestedBy = subj.actorID
  · rw [if_pos hasked]
    exact ⟨fun _ => .inl hasked, fun _ => rfl⟩
  rw [if_neg hasked, observe_bind (only_attempt (quiet_requestIssuerID P _ _)), observe_attempt,
    observe_requestIssuerID hfault]
  cases issuerOf P s subj.tenantID r with
  | none =>
    constructor
    · intro h
      cases h
    rintro (h | ⟨id, hid, -⟩)
    · exact absurd h hasked
    · cases hid
  | some id =>
    show observe e s (check subj .issuer id .read) = .ok () ↔ _
    rw [check_ok_iff hfault]
    constructor
    · exact fun h => .inr ⟨id, rfl, h⟩
    rintro (h | ⟨id', hid, hper⟩)
    · exact absurd h hasked
    · cases hid
      exact hper

theorem authorizeJob_iff (hfault : e.fault = .ok) (j : CertificateJob) (a : Action) :
    observe e s (authorizeJob P subj j a) = .ok () ↔
      (subj.isAdmin = true ∧
        (s.request? subj.tenantID j.requestID).bind (issuerOf P s subj.tenantID) = none) ∨
      ∃ id, (s.request? subj.tenantID j.requestID).bind (issuerOf P s subj.tenantID) = some id ∧
        Permitted s subj .issuer id a e.clock := by
  have hquiet : Quiet (do
      let r ← fetch (getRequest subj.tenantID j.requestID)
      requestIssuerID P subj.tenantID r) :=
    only_bind (quiet_fetch (readOnly_getRequest _ _)) fun _ => quiet_requestIssuerID P _ _
  have hissuer : observe e s (do
      let r ← fetch (getRequest subj.tenantID j.requestID)
      requestIssuerID P subj.tenantID r) =
      ((s.request? subj.tenantID j.requestID).bind (issuerOf P s subj.tenantID)).elim
        (.error .notFound) .ok := by
    rw [getRequest, observe_query hfault]
    cases s.request? subj.tenantID j.requestID with
    | none => rfl
    | some r => exact observe_requestIssuerID hfault _ _
  unfold authorizeJob
  rw [observe_bind (only_attempt hquiet), observe_attempt, hissuer]
  cases (s.request? subj.tenantID j.requestID).bind (issuerOf P s subj.tenantID) with
  | none =>
    show observe e s (if subj.isAdmin = true then pure () else fail .forbidden) = .ok () ↔ _
    cases hadmin : subj.isAdmin with
    | true => exact ⟨fun _ => .inl ⟨rfl, rfl⟩, fun _ => rfl⟩
    | false =>
      constructor
      · intro h
        cases h
      rintro (⟨h, -⟩ | ⟨id, hid, -⟩)
      · cases h
      · cases hid
  | some id =>
    show observe e s (check subj .issuer id a) = .ok () ↔ _
    rw [check_ok_iff hfault]
    constructor
    · exact fun h => .inr ⟨id, rfl, h⟩
    rintro (⟨-, h⟩ | ⟨id', hid, hper⟩)
    · cases h
    · cases hid
      exact hper

end Moment

end Enroll

end Lcm
