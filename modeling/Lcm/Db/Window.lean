import Lcm.Db.Order

/-!
# Numbered pages

A list is shown in pages, in the order of one of its fields. Which request is valid, which places
of the list are on a page and how two rows compare is up to a list library and the database
(`ListQuery`). The lists rely on no more of them than `ListQuery.Lawful` says.

* `ListQuery.page`: one page with the number of all rows.
* `ListQuery.Lawful.exists_mem_page`: the pages of a valid request show every row.
-/

namespace Db

open List

/-- What a client asks for, or how it was applied. -/
structure PageRequest where
  page : Int
  pageSize : Int
  sort : String
  order : String
deriving DecidableEq

/-- A request without wishes. -/
def PageRequest.zero : PageRequest := ⟨0, 0, "", ""⟩

/-- How a field is sorted: as text, without nulls, and in which direction when none is asked for. -/
structure SortField where
  text : Bool
  notNull : Bool
  descending : Bool

/-- The fields a list is sorted by, and the one it is sorted by when none is asked for. -/
structure ListSpec where
  fields : List (String × SortField)
  default : String

/-- The value of a sort expression. -/
inductive SortKey where
  | null
  | number (n : Int)
  | text (s : String)

/-- A row as its order sees it: the values of the fields, and the id as the tie-breaker. -/
structure SortRow where
  key : String → SortKey
  id : Nat

/-- A list library, with the database that runs its queries. -/
structure ListQuery where
  /-- the request with the defaults of the list, and whether it is a valid one -/
  new : PageRequest → ListSpec → PageRequest × Bool
  /-- the request for a list of so many rows -/
  clamp : PageRequest → Nat → PageRequest
  /-- `ORDER BY` puts the first row before the second -/
  before : PageRequest → ListSpec → SortRow → SortRow → Bool
  limit : PageRequest → Nat
  offset : PageRequest → Nat

namespace ListQuery

variable (Q : ListQuery) {ρ : Type}

/-- An invalid request gets the defaults. -/
def listRequest (r : PageRequest) (spec : ListSpec) : PageRequest :=
  if (Q.new r spec).2 then (Q.new r spec).1 else (Q.new .zero spec).1

/-- The rows in the order of the request. -/
def ordered (spec : ListSpec) (r : PageRequest) (row : ρ → SortRow) (rows : List ρ) : List ρ :=
  sorted (fun x y => Q.before r spec (row x) (row y)) rows

/-- One page of the rows, the number of rows, and the request as it was applied; `key` gives the
value of a field. -/
def page (spec : ListSpec) (r : PageRequest) (key : String → ρ → SortKey) (id : ρ → Nat)
    (rows : List ρ) : List ρ × Nat × PageRequest :=
  let a := Q.clamp (Q.listRequest r spec) rows.length
  let all := Q.ordered spec a (fun x => ⟨fun f => key f x, id x⟩) rows
  ((all.drop (Q.offset a)).take (Q.limit a), rows.length, a)

/-- What the lists rely on. -/
structure Lawful : Prop where
  sortable : ∀ r spec, Sortable (Q.before r spec)
  /-- only rows with one id are tied -/
  tie : ∀ r spec a b, Q.before r spec a b = false → Q.before r spec b a = false → a.id = b.id
  /-- a list can be asked for without wishes if it has its default field -/
  valid : ∀ spec : ListSpec, (spec.fields.lookup spec.default).isSome → (Q.new .zero spec).2 = true
  /-- a valid request puts the list in one order, and every place of it is on some page -/
  covers : ∀ r spec, (Q.new r spec).2 = true → ∀ n i, i < n → ∃ p : Nat, 0 < p ∧
    let a := Q.clamp (Q.listRequest { r with page := p } spec) n
    Q.before a spec = Q.before (Q.new r spec).1 spec ∧ Q.offset a ≤ i ∧ i < Q.offset a + Q.limit a

variable {Q} {spec : ListSpec} {r : PageRequest} {key : String → ρ → SortKey} {id : ρ → Nat}
  {rows : List ρ} {x : ρ}

theorem mem_ordered {row : ρ → SortRow} : x ∈ Q.ordered spec r row rows ↔ x ∈ rows :=
  mem_insertionSort _

theorem length_ordered {row : ρ → SortRow} : (Q.ordered spec r row rows).length = rows.length :=
  length_insertionSort _ _

theorem mem_of_mem_page (hx : x ∈ (Q.page spec r key id rows).1) : x ∈ rows :=
  mem_ordered.1 (mem_of_mem_drop (mem_of_mem_take hx))

/-- The pages of a valid request show every row, whatever the size, the field and the direction. -/
theorem Lawful.exists_mem_page (hQ : Q.Lawful) (hr : (Q.new r spec).2 = true) (hx : x ∈ rows) :
    ∃ p : Nat, 0 < p ∧ x ∈ (Q.page spec { r with page := p } key id rows).1 := by
  let row : ρ → SortRow := fun x => ⟨fun f => key f x, id x⟩
  have hmem : x ∈ Q.ordered spec (Q.new r spec).1 row rows := mem_ordered.2 hx
  obtain ⟨i, hi⟩ := getElem?_of_mem hmem
  have hlt : i < rows.length := length_ordered ▸ (List.getElem?_eq_some_iff.1 hi).1
  obtain ⟨p, hp, hbefore, hle, hin⟩ := hQ.covers r spec hr rows.length i hlt
  refine ⟨p, hp, ?_⟩
  unfold page
  dsimp only
  generalize Q.clamp _ rows.length = a at hbefore hle hin ⊢
  refine mem_of_getElem? (i := i - Q.offset a) ?_
  rw [getElem?_take_of_lt (by omega), getElem?_drop, Nat.add_sub_cancel' hle, ← hi]
  unfold ordered
  rw [hbefore]

end ListQuery

end Db
