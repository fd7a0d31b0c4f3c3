import Mathlib.Tactic.Common

/-!
# Transactions

`Tx` is the code of one transaction: it reads and writes its own copy of the database and
may fail. A statement that violates a constraint aborts the transaction, after which every
further statement fails, even if the code goes on (`attempt`). `Tx.atomic` runs the code as
one step on the database: it commits what the code wrote, or leaves the database as it was.

* `Tx.bind_ok`, `Tx.stmt_ok`: what a successful transaction has done, statement by statement.
* `Tx.Keeps`: a relation that every statement of the code keeps.
* `Tx.Holds`: an invariant of the database that the code keeps, and what it returns under it.
* `Tx.Leads`: the same for code whose first statement finds more than the invariant.
-/

namespace Db

/-- The error of a statement in an aborted transaction. -/
class SqlError (err : Type) where
  aborted : err

/-- An open transaction: the database as it sees it, whether it is aborted, and how many
random values it has drawn. -/
structure Session (σ : Type) where
  db : σ
  aborted : Bool
  draws : Nat

/-- The code of a transaction over a database `σ`, with the choices of the environment `ι`. -/
def Tx (ι σ err α : Type) : Type := ι → Session σ → Except err α × Session σ

/-- What one statement does: it writes, it finds no row (which is no violation), or it
violates a constraint. -/
inductive Outcome (σ err α : Type) where
  | done (db : σ) (a : α)
  | missed (e : err)
  | violated (e : err)

namespace Tx

variable {ι σ err α β : Type}

protected def pure (a : α) : Tx ι σ err α := fun _ ss => (.ok a, ss)

protected def bind (m : Tx ι σ err α) (f : α → Tx ι σ err β) : Tx ι σ err β := fun i ss =>
  match m i ss with
  | (.ok a, ss') => f a i ss'
  | (.error e, ss') => (.error e, ss')

instance : Monad (Tx ι σ err) where
  pure := Tx.pure
  bind := Tx.bind

/-- Return an error. -/
def fail (e : err) : Tx ι σ err α := fun _ ss => (.error e, ss)

/-- Return the error of a pure computation. -/
def ofExcept (r : Except err α) : Tx ι σ err α := fun _ ss => (r, ss)

/-- Run the code and look at its error instead of returning it. -/
def attempt (m : Tx ι σ err α) : Tx ι σ err (Except err α) := fun i ss =>
  (.ok (m i ss).1, (m i ss).2)

/-- Read a choice of the environment. -/
def ask (f : ι → α) : Tx ι σ err α := fun i ss => (.ok (f i), ss)

/-- Draw the next random value. -/
def draw (f : ι → Nat → α) : Tx ι σ err α := fun i ss =>
  (.ok (f i ss.draws), { ss with draws := ss.draws + 1 })

/-- One statement. -/
def stmt [SqlError err] (f : σ → Outcome σ err α) : Tx ι σ err α := fun _ ss =>
  if ss.aborted then (.error SqlError.aborted, ss)
  else match f ss.db with
    | .done db a => (.ok a, { ss with db := db })
    | .missed e => (.error e, ss)
    | .violated e => (.error e, { ss with aborted := true })

/-- A statement that only reads. -/
def query [SqlError err] (f : σ → Except err α) : Tx ι σ err α :=
  stmt fun db => match f db with
    | .ok a => .done db a
    | .error e => .missed e

/-- The whole transaction as one step: commit, or leave the database as it was. An aborted
transaction does not commit. -/
def atomic [SqlError err] (m : Tx ι σ err α) (i : ι) (s : σ) : Except err α × σ :=
  match m i ⟨s, false, 0⟩ with
  | (.ok a, ss) => if ss.aborted then (.error SqlError.aborted, s) else (.ok a, ss.db)
  | (.error e, _) => (.error e, s)

/-! ## What a successful transaction has done -/

variable {a : α} {i : ι} {ss ss' : Session σ} {b : β} {m : Tx ι σ err α} {e : err}
  {r : Except err α} {f : σ → Outcome σ err α} {s : σ} {Q : α → Prop}

theorem pure_ok {b : α} : (pure a : Tx ι σ err α) i ss = (.ok b, ss') ↔ a = b ∧ ss = ss' := by
  change ((Except.ok a : Except err α), ss) = _ ↔ _
  simp

theorem bind_ok {f : α → Tx ι σ err β} : (m >>= f) i ss = (.ok b, ss') ↔
      ∃ a ss1, m i ss = (.ok a, ss1) ∧ f a i ss1 = (.ok b, ss') := by
  change Tx.bind m f i ss = _ ↔ _
  unfold Tx.bind
  split
  · next a ss1 h => simp [h]
  · next e ss1 h => simp [h]

theorem fail_ok : (fail e : Tx ι σ err α) i ss ≠ (.ok a, ss') := by
  simp [fail]

theorem ofExcept_ok : (ofExcept r : Tx ι σ err α) i ss = (.ok a, ss') ↔ r = .ok a ∧ ss = ss' := by
  simp [ofExcept]

theorem attempt_ok : attempt m i ss = (.ok r, ss') ↔ m i ss = (r, ss') := by
  simp [attempt, Prod.ext_iff]

theorem ask_ok {f : ι → α} : (ask f : Tx ι σ err α) i ss = (.ok a, ss') ↔ f i = a ∧ ss = ss' := by
  simp [ask]

theorem draw_ok {f : ι → Nat → α} :
    (draw f : Tx ι σ err α) i ss = (.ok a, ss') ↔
      f i ss.draws = a ∧ ss' = { ss with draws := ss.draws + 1 } := by
  simp [draw, eq_comm]

theorem stmt_ok [SqlError err] :
    (stmt f : Tx ι σ err α) i ss = (.ok a, ss') ↔
      ss.aborted = false ∧ ∃ db, f ss.db = .done db a ∧ ss' = { ss with db := db } := by
  unfold stmt
  split
  · next h => simp [h]
  rename_i h
  split
  · next db b hf => simp [hf, eq_comm, h]
  · next e hf => simp [hf]
  · next e hf => simp [hf]

theorem query_ok [SqlError err] {f : σ → Except err α} :
    query f i ss = (.ok a, ss') ↔ ss.aborted = false ∧ f ss.db = .ok a ∧ ss' = ss := by
  unfold query
  rw [stmt_ok]
  refine and_congr_right fun _ => ?_
  cases f ss.db with
  | ok b =>
    constructor
    · rintro ⟨db, hdb, rfl⟩
      cases hdb
      exact ⟨rfl, rfl⟩
    rintro ⟨h, rfl⟩
    cases h
    exact ⟨_, rfl, rfl⟩
  | error e => simp

theorem query_eq [SqlError err] {f : σ → Except err α} (h : ss.aborted = false) :
    query f i ss = (f ss.db, ss) := by
  obtain ⟨db, aborted, draws⟩ := ss
  obtain rfl : aborted = false := h
  unfold query stmt
  cases hf : f db <;> simp [hf]

theorem stmt_error [SqlError err] (h : (stmt f : Tx ι σ err α) i ss = (.error e, ss')) :
    ss'.db = ss.db := by
  unfold stmt at h
  split at h
  · cases h
    rfl
  · split at h <;> cases h <;> rfl

theorem stmt_violated [SqlError err]
    (hf : ∀ db, (∃ e, f db = .violated e) ∨ ∃ db' a, f db = .done db' a)
    (h : (stmt f : Tx ι σ err α) i ss = (.error e, ss')) : ss'.aborted = true := by
  unfold stmt at h
  split at h
  · next hab =>
    cases h
    exact hab
  rcases hf ss.db with ⟨e', he⟩ | ⟨db', a, hd⟩
  · rw [he] at h
    cases h
    rfl
  · rw [hd] at h
    cases h

theorem foldlM_ok {f : β → α → Tx ι σ err β} {I : β → Session σ → Prop} {l : List α}
    (hturn : ∀ a ∈ l, ∀ b ss b' ss', I b ss → f b a i ss = (.ok b', ss') → I b' ss') {b' : β}
    (hI : I b ss) (h : l.foldlM f b i ss = (.ok b', ss')) : I b' ss' := by
  induction l generalizing b ss with
  | nil =>
    obtain ⟨rfl, rfl⟩ := pure_ok.1 h
    exact hI
  | cons a l ih =>
    obtain ⟨b1, ss1, hfirst, hrest⟩ := bind_ok.1 h
    have hI1 : I b1 ss1 := hturn a List.mem_cons_self b ss b1 ss1 hI hfirst
    exact ih (fun x hx => hturn x (List.mem_cons_of_mem a hx)) hI1 hrest

theorem foldlM_total {f : β → α → Tx ι σ err β} {I : List α → β → Session σ → Prop} {l : List α}
    (hturn : ∀ done a rest, l = done ++ a :: rest → ∀ b ss, I done b ss →
      ∃ b' ss', f b a i ss = (.ok b', ss') ∧ I (done ++ [a]) b' ss') (hI : I [] b ss) :
    ∃ b' ss', l.foldlM f b i ss = (.ok b', ss') ∧ I l b' ss' := by
  suffices hfrom : ∀ rest done b ss, l = done ++ rest → I done b ss →
      ∃ b' ss', rest.foldlM f b i ss = (.ok b', ss') ∧ I l b' ss' from hfrom l [] b ss rfl hI
  intro rest
  induction rest with
  | nil =>
    rintro done b ss rfl hdone
    exact ⟨b, ss, rfl, by rwa [List.append_nil]⟩
  | cons a rest ih =>
    intro done b ss hl hdone
    obtain ⟨b1, ss1, hfirst, hI1⟩ := hturn done a rest hl b ss hdone
    obtain ⟨b2, ss2, hrest, hI2⟩ := ih (done ++ [a]) b1 ss1 (by simp [hl]) hI1
    exact ⟨b2, ss2, bind_ok.2 ⟨b1, ss1, hfirst, hrest⟩, hI2⟩

theorem atomic_ok [SqlError err] {s' : σ} :
    m.atomic i s = (.ok a, s') ↔
      ∃ ss, m i ⟨s, false, 0⟩ = (.ok a, ss) ∧ ss.aborted = false ∧ ss.db = s' := by
  unfold atomic
  split
  · next b ss h =>
    split
    · next hab => simp [h, hab]
    · next hab => simp [h, hab]
  · next e ss h => simp [h]

theorem atomic_error [SqlError err] (h : (m.atomic i s).1 = .error e) : (m.atomic i s).2 = s := by
  unfold atomic at h ⊢
  split
  · next b ss hm =>
    split
    · rfl
    · next hab => simp [hm, hab] at h
  · rfl

theorem atomic_query [SqlError err] (f : σ → Except err α) (i : ι) (s : σ) :
    (query f).atomic i s = (f s, s) := by
  unfold atomic query stmt
  cases h : f s <;> simp [h]

theorem atomic_ask_bind [SqlError err] (f : ι → α) (g : α → Tx ι σ err β) (i : ι) (s : σ) :
    (ask f >>= g).atomic i s = (g (f i)).atomic i s := rfl

/-! ## Relations that every statement keeps -/

/-- Whatever happens, the database the transaction sees afterwards is related to the one it
saw before. -/
def Keeps (R : σ → σ → Prop) (m : Tx ι σ err α) : Prop :=
  ∀ i ss, R ss.db (m i ss).2.db

namespace Keeps

variable {R : σ → σ → Prop}

theorem run (hm : Keeps R m) (h : m i ss = (r, ss')) : R ss.db ss'.db := by
  have hrun := hm i ss
  rwa [h] at hrun

theorem atomic [SqlError err] (hr : ∀ s, R s s) (hm : Keeps R m) (i : ι) (s : σ) :
    R s (m.atomic i s).2 := by
  have h := hm i ⟨s, false, 0⟩
  unfold Tx.atomic
  split
  · next a ss heq =>
    rw [heq] at h
    split
    · exact hr s
    · exact h
  · exact hr s

end Keeps

/-! ## Invariants -/

/-- Started where `I` holds, the code leaves it so, whatever happens, and returns only values
of `Q`. -/
def Holds (I : σ → Prop) (Q : α → Prop) (m : Tx ι σ err α) : Prop :=
  ∀ i ss, I ss.db → I (m i ss).2.db ∧ ∀ a, (m i ss).1 = .ok a → Q a

/-- Like `Holds`, for code that is started where `pre` holds. -/
def Leads (pre I : σ → Prop) (Q : α → Prop) (m : Tx ι σ err α) : Prop :=
  ∀ i ss, pre ss.db → I (m i ss).2.db ∧ ∀ a, (m i ss).1 = .ok a → Q a

theorem Keeps.of_holds {R : σ → σ → Prop} (hr : ∀ s, R s s)
    (hm : ∀ s, Holds (R s) (fun _ => True) m) : Keeps R m :=
  fun i ss => (hm ss.db i ss (hr ss.db)).1

theorem Leads.holds {I : σ → Prop} (hm : Leads I I Q m) : Holds I Q m := hm

theorem Leads.bind {pre I : σ → Prop} {Q' : β → Prop} {f : α → Tx ι σ err β} (hm : Leads pre I Q m)
    (hf : ∀ a, Q a → Holds I Q' (f a)) : Leads pre I Q' (m >>= f) := by
  intro i ss hs
  obtain ⟨hI, hQ⟩ := hm i ss hs
  change I (Tx.bind m f i ss).2.db ∧ ∀ b, (Tx.bind m f i ss).1 = .ok b → Q' b
  unfold Tx.bind
  split
  · next a ss' heq =>
    rw [heq] at hI hQ
    exact hf a (hQ a rfl) i ss' hI
  rename_i e ss' heq
  rw [heq] at hI
  exact ⟨hI, fun _ h => by cases h⟩

namespace Holds

variable {I : σ → Prop} {Q : α → Prop} {Q' : β → Prop}

theorem pure (ha : Q a) : Holds I Q (Pure.pure a : Tx ι σ err α) := by
  intro i ss hI
  refine ⟨hI, ?_⟩
  rintro b ⟨⟩
  exact ha

theorem fail (e : err) : Holds I Q (Tx.fail e : Tx ι σ err α) :=
  fun _ _ hI => ⟨hI, fun _ h => by cases h⟩

theorem ofExcept (hr : ∀ a, r = .ok a → Q a) : Holds I Q (Tx.ofExcept r : Tx ι σ err α) :=
  fun _ _ hI => ⟨hI, hr⟩

theorem ask {f : ι → α} (hf : ∀ i, Q (f i)) : Holds I Q (Tx.ask f : Tx ι σ err α) := by
  intro i ss hI
  refine ⟨hI, ?_⟩
  rintro b ⟨⟩
  exact hf i

theorem draw {f : ι → Nat → α} (hf : ∀ i n, Q (f i n)) :
    Holds I Q (Tx.draw f : Tx ι σ err α) := by
  intro i ss hI
  refine ⟨hI, ?_⟩
  rintro b ⟨⟩
  exact hf i ss.draws

theorem mono {R : α → Prop} (hQR : ∀ a, Q a → R a) (hm : Holds I Q m) : Holds I R m :=
  fun i ss hI => ⟨(hm i ss hI).1, fun a ha => hQR a ((hm i ss hI).2 a ha)⟩

theorem bind {f : α → Tx ι σ err β} (hm : Holds I Q m) (hf : ∀ a, Q a → Holds I Q' (f a)) :
    Holds I Q' (m >>= f) := Leads.bind hm hf

theorem ite {c : Prop} [Decidable c] {m' : Tx ι σ err α} (hm : c → Holds I Q m)
    (hm' : ¬c → Holds I Q m') : Holds I Q (if c then m else m') := by
  split
  · next h => exact hm h
  · next h => exact hm' h

theorem attempt (hm : Holds I Q m) : Holds I (fun r => ∀ a, r = .ok a → Q a) m.attempt := by
  intro i ss hI
  refine ⟨(hm i ss hI).1, ?_⟩
  rintro r ⟨⟩
  exact (hm i ss hI).2

theorem stmt [SqlError err] (hf : ∀ s s' a, I s → f s = .done s' a → I s' ∧ Q a) :
    Holds I Q (Tx.stmt f : Tx ι σ err α) := by
  intro i ss hI
  unfold Tx.stmt
  split
  · exact ⟨hI, fun _ h => by cases h⟩
  split
  · next db a h =>
    obtain ⟨hI', ha⟩ := hf _ _ _ hI h
    refine ⟨hI', ?_⟩
    rintro b ⟨⟩
    exact ha
  · exact ⟨hI, fun _ h => by cases h⟩
  · exact ⟨hI, fun _ h => by cases h⟩

theorem query [SqlError err] {f : σ → Except err α} (hf : ∀ s a, I s → f s = .ok a → Q a) :
    Holds I Q (Tx.query f : Tx ι σ err α) := by
  refine stmt fun s s' a hI h => ?_
  split at h
  · next b hb =>
    cases h
    exact ⟨hI, hf s a hI hb⟩
  · cases h

theorem leads_query [SqlError err] {pre : σ → Prop} {f : σ → Except err α}
    (hpre : ∀ s, pre s → I s) (hf : ∀ s a, pre s → f s = .ok a → Q a) :
    Leads pre I Q (Tx.query f : Tx ι σ err α) := by
  intro i ss hs
  have hquery : Holds pre Q (Tx.query f : Tx ι σ err α) := query hf
  obtain ⟨hs', hQ⟩ := hquery i ss hs
  exact ⟨hpre _ hs', hQ⟩

theorem foldlM {R : β → Prop} {f : β → α → Tx ι σ err β} {l : List α}
    (hf : ∀ a ∈ l, ∀ b, R b → Holds I R (f b a)) (hb : R b) : Holds I R (l.foldlM f b) := by
  induction l generalizing b with
  | nil => exact pure hb
  | cons a l ih =>
    refine bind (hf a List.mem_cons_self b hb) fun b' hb' => ?_
    exact ih (fun x hx => hf x (List.mem_cons_of_mem a hx)) hb'

theorem atomic [SqlError err] (hm : Holds I Q m) (hI : I s) :
    I (m.atomic i s).2 ∧ ∀ a, (m.atomic i s).1 = .ok a → Q a := by
  obtain ⟨hI', hQ⟩ := hm i ⟨s, false, 0⟩ hI
  unfold Tx.atomic
  split
  · next a ss heq =>
    rw [heq] at hI' hQ
    split
    · exact ⟨hI, fun _ h => by cases h⟩
    refine ⟨hI', ?_⟩
    rintro b ⟨⟩
    exact hQ a rfl
  · exact ⟨hI, fun _ h => by cases h⟩

end Holds

end Tx

end Db
