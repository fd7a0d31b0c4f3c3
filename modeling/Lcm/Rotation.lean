import Mathlib.Data.List.Chain
import Mathlib.Data.List.Perm.Subperm
import Mathlib.Order.Basic
import Lcm.Conc.Machine

/-!
# Rotations of a workload's credential

The renewal loops of the three identity providers (`internal/selfidentity`, and `Provider` and
`NetProvider` of `sdk/pkg/lcmidentity`). A loop renews the credential, installs what it got
under the provider's lock, and offers an update to its watcher: a channel of one place, written
with a `select` that gives up when the place is taken. A renewal that failed offers its error
in the same way.

The three differ in the version of the trust bundle. `selfidentity` gives a state with the
roots of the one before the version of the one before; the other two count every renewal.
-/

namespace Lcm.Rotation

open Conc Machine List

/-- `selfidentity.Provider`, `lcmidentity.Provider` and `lcmidentity.NetProvider`. -/
inductive Kind
  | selfIssued
  | enrolled
  | net
  deriving DecidableEq, Repr

section Roots

variable {ρ : Type} [DecidableEq ρ]

/-- The second loop of `sameRoots`: each root takes one off its count in the map. -/
def spend (seen : ρ → Nat) : List ρ → Bool
  | [] => true
  | c :: b => seen c != 0 && spend (Function.update seen c (seen c - 1)) b

/-- Roots are compared by their DER. -/
def sameRoots (a b : List ρ) : Bool :=
  a.length == b.length && spend (fun c => a.count c) b

theorem spend_iff (seen : ρ → Nat) (b : List ρ) : spend seen b ↔ ∀ c, b.count c ≤ seen c := by
  induction b generalizing seen with
  | nil => simp [spend]
  | cons d b ih =>
    simp only [spend, Bool.and_eq_true, bne_iff_ne, ih]
    constructor
    · rintro ⟨hd, h⟩ c
      have hc := h c
      rcases eq_or_ne c d with rfl | hne
      · rw [Function.update_self] at hc
        rw [count_cons_self]
        omega
      · rw [Function.update_of_ne hne] at hc
        rwa [count_cons_of_ne hne.symm]
    intro h
    have hd := h d
    rw [count_cons_self] at hd
    refine ⟨by omega, fun c => ?_⟩
    have hc := h c
    rcases eq_or_ne c d with rfl | hne
    · rw [Function.update_self]
      omega
    · rw [Function.update_of_ne hne]
      rwa [count_cons_of_ne hne.symm] at hc

theorem sameRoots_iff (a b : List ρ) : sameRoots a b ↔ a.Perm b := by
  simp only [sameRoots, Bool.and_eq_true, beq_iff_eq, spend_iff]
  constructor
  · rintro ⟨hlen, hcount⟩
    have hsub : b.Subperm a := subperm_ext_iff.2 fun c _ => hcount c
    exact (hsub.perm_of_length_le hlen.le).symm
  · intro h
    exact ⟨h.length_eq, fun c => (h.count_eq c).ge⟩

end Roots

/-- The identity and the trust bundle of a state. -/
structure Installed (ι ρ : Type) where
  id : ι
  roots : List ρ
  ver : Nat
  deriving DecidableEq, Repr

inductive Update (ι ρ ε : Type)
  | failed (err : ε)
  | identity (st : Installed ι ρ)
  deriving DecidableEq, Repr

/-- `identity.Update.Identity` and `.Bundle`, which an update for an error leaves empty. -/
def Update.state? {ι ρ ε : Type} : Update ι ρ ε → Option (Installed ι ρ)
  | .failed _ => none
  | .identity st => some st

/-- A provider and one of its watchers: `slot` is the place of the channel, `received` what the
watcher took from it. `installed` keeps the states in the order of their installation; the last
is `st`. -/
structure Provider (ι ρ ε : Type) where
  ver : Nat
  st : Installed ι ρ
  slot : Option (Update ι ρ ε)
  received : List (Update ι ρ ε)
  installed : List (Installed ι ρ)

/-- What can happen. `renew` is one turn of a renewal loop; `own` says that it is the loop of
the watcher at hand and not that of another `Watch`. -/
inductive Act (ι ρ ε : Type)
  | renew (own : Bool) (outcome : Except ε (ι × List ρ))
  | receive

section Loop

variable {ι ρ ε : Type}

/-- The turn puts a new state in place. -/
def Act.installs : Act ι ρ ε → Bool
  | .renew _ (.ok _) => true
  | _ => false

/-- `select { case ch <- u: default: }` -/
def offer (slot : Option (Update ι ρ ε)) (u : Update ι ρ ε) : Option (Update ι ρ ε) :=
  match slot with
  | none => some u
  | some _ => slot

variable [DecidableEq ρ]

/-- The version of a renewed bundle. -/
def version (k : Kind) (p : Provider ι ρ ε) (roots : List ρ) : Nat :=
  match k with
  | .selfIssued => if sameRoots p.st.roots roots then p.st.ver else p.ver + 1
  | .enrolled | .net => p.ver + 1

/-- `p.ver` is raised when the version is a new one, and equal to it then. -/
def counter (k : Kind) (p : Provider ι ρ ε) (roots : List ρ) : Nat :=
  match k with
  | .selfIssued => if sameRoots p.st.roots roots then p.ver else p.ver + 1
  | .enrolled | .net => p.ver + 1

/-- One step. Between the installation and the offer of a turn the watcher may receive and
another loop may install; neither looks at what the other wrote, so the first is put before the
turn and the second behind it. -/
def step (k : Kind) (p : Provider ι ρ ε) : Act ι ρ ε → Provider ι ρ ε
  | .renew own (.error err) => { p with slot := if own then offer p.slot (.failed err) else p.slot }
  | .renew own (.ok (id, roots)) =>
    let st := { id, roots, ver := version k p roots }
    { p with
      ver := counter k p roots
      st
      installed := p.installed ++ [st]
      slot := if own then offer p.slot (.identity st) else p.slot }
  | .receive => { p with slot := none, received := p.received ++ p.slot.toList }

/-- `New`: the first state has version 1, and `Watch` has made an empty channel. -/
def start (id : ι) (roots : List ρ) : Provider ι ρ ε :=
  let st := { id, roots, ver := 1 }
  { ver := 1, st, slot := none, received := [], installed := [st] }

end Loop

/-! ## Versions -/

section Versions

variable {ι ρ ε : Type} [DecidableEq ρ] {k : Kind}

/-- The versions of two states are equal exactly when their roots are the same multiset, and
the later is not the smaller. -/
def Follows (a b : Installed ι ρ) : Prop := (a.ver = b.ver ↔ a.roots.Perm b.roots) ∧ a.ver ≤ b.ver

/-- The turn is the self-issuing provider's, or brings other roots than the installed ones. -/
def BringsRoots (k : Kind) (p : Provider ι ρ ε) : Act ι ρ ε → Prop
  | .renew _ (.ok (_, roots)) => k = .selfIssued ∨ ¬ p.st.roots.Perm roots
  | _ => True

/-- The state in place is the last installed, and its version is the counter's. -/
def Current (p : Provider ι ρ ε) : Prop := p.installed.getLast? = some p.st ∧ p.st.ver = p.ver

theorem current_step {p : Provider ι ρ ε} (h : Current p) (a : Act ι ρ ε) :
    Current (step k p a) := by
  rcases a with ⟨own, err | ⟨id, roots⟩⟩ | _
  · exact h
  · refine ⟨getLast?_concat, ?_⟩
    cases k <;> simp only [step, version, counter, h.2]
  · exact h

theorem follows_iff {p : Provider ι ρ ε} (h : Current p) (id : ι) (roots : List ρ) :
    Follows p.st { id, roots, ver := version k p roots } ↔
      k = .selfIssued ∨ ¬ p.st.roots.Perm roots := by
  have hver := h.2
  have hsame := sameRoots_iff p.st.roots roots
  cases k with
  | selfIssued =>
    simp only [Follows, version, true_or, iff_true]
    split
    · next hs => exact ⟨⟨fun _ => hsame.1 hs, fun _ => rfl⟩, le_rfl⟩
    rename_i hs
    refine ⟨⟨fun he => ?_, fun hp => absurd (hsame.2 hp) hs⟩, by omega⟩
    omega
  | enrolled | net =>
    -- the counter has moved, so the versions differ whatever the roots are
    have hne : p.st.ver ≠ p.ver + 1 := by omega
    have hle : p.st.ver ≤ p.ver + 1 := by omega
    simp [Follows, version, hne, hle]

theorem isChain_step {p : Provider ι ρ ε} (h : Current p) (a : Act ι ρ ε) :
    (step k p a).installed.IsChain Follows ↔
      p.installed.IsChain Follows ∧ BringsRoots k p a := by
  rcases a with ⟨own, err | ⟨id, roots⟩⟩ | _
  · exact (and_iff_left trivial).symm
  · rw [step, isChain_append]
    have hlast := h.1
    simp only [isChain_singleton, true_and, BringsRoots, ← follows_iff h id roots]
    simp [hlast]
  · exact (and_iff_left trivial).symm

/-- Over a run of any length, every two states installed one after the other agree in their
versions exactly when they agree in their roots, if and only if no turn of the two enrolling
providers brings back the roots that are in place. -/
theorem versions_follow_roots_iff (k : Kind) (id : ι) (roots : List ρ) (as : List (Act ι ρ ε)) :
    (run (step k) (start id roots) as).installed.IsChain Follows ↔
      Meets (step k) (BringsRoots k) (start id roots) as := by
  suffices h : ∀ p : Provider ι ρ ε, Current p →
      ((run (step k) p as).installed.IsChain Follows ↔
        p.installed.IsChain Follows ∧ Meets (step k) (BringsRoots k) p as) by
    rw [h _ ⟨rfl, rfl⟩]
    exact and_iff_right (isChain_singleton _)
  intro p hp
  induction as generalizing p with
  | nil => exact (and_iff_left trivial).symm
  | cons a as ih =>
    rw [run_cons, ih _ (current_step hp a), isChain_step hp, and_assoc]
    rfl

/-- A renewal of an enrolled workload with the roots it had. -/
theorem versions_of_same_roots :
    ¬ (run (step .enrolled) (start "svid-1" ["root"])
      [.renew true (.ok ("svid-2", ["root"]) : Except String _)]).installed.IsChain Follows := by
  rw [isChain_iff_getElem]
  intro h
  have h0 := (h 0 (by decide)).1
  exact absurd (h0.2 (.refl _)) (by decide)

end Versions

/-! ## What the watcher has heard -/

section Watcher

variable {ι ρ ε : Type} [DecidableEq ρ] {k : Kind}

/-- The last update with an identity. -/
def newest (us : List (Update ι ρ ε)) : Option (Installed ι ρ) :=
  (us.filterMap Update.state?).getLast?

/-- What is received and what lies in the channel end in the state in place. -/
def Informed (p : Provider ι ρ ε) : Prop := newest (p.received ++ p.slot.toList) = some p.st

omit [DecidableEq ρ] in
@[simp] theorem newest_failed (us : List (Update ι ρ ε)) (err : ε) :
    newest (us ++ [.failed err]) = newest us := by
  simp [newest, Update.state?]

omit [DecidableEq ρ] in
@[simp] theorem newest_identity (us : List (Update ι ρ ε)) (st : Installed ι ρ) :
    newest (us ++ [.identity st]) = some st := by
  simp [newest, Update.state?]

/-- A turn that installs nothing takes no identity away: an error stands behind the identities,
and the watcher only moves what lies in the channel. -/
theorem informed_step {p : Provider ι ρ ε} (h : Informed p) {a : Act ι ρ ε}
    (ha : a.installs = false) : Informed (step k p a) := by
  unfold Informed at h ⊢
  rcases a with ⟨own, err | r⟩ | _
  · cases own with
    | false => exact h
    | true =>
      cases hslot : p.slot with
      | none => simpa [step, offer, hslot] using h
      | some u => simpa [step, offer, hslot] using h
  · cases ha
  · simpa [step] using h

/-- After the last successful renewal of a run, made by the watcher's own loop on an empty
channel, a watcher that has drained the channel has the state in place as its newest. -/
theorem watcher_learns_newest (k : Kind) (id : ι) (roots : List ρ)
    (before after : List (Act ι ρ ε)) (r : ι × List ρ)
    (hlast : ∀ a ∈ after, a.installs = false)
    (hempty : (run (step k) (start id roots) before).slot = none)
    (hdrained : (run (step k) (start id roots)
      (before ++ .renew true (.ok r) :: after)).slot = none) :
    newest (run (step k) (start id roots)
        (before ++ .renew true (.ok r) :: after)).received =
      some (run (step k) (start id roots) (before ++ .renew true (.ok r) :: after)).st := by
  generalize hp : run (step k) (start id roots) before = p at hempty
  have hrun : run (step k) (start id roots) (before ++ .renew true (.ok r) :: after) =
      run (step k) (step k p (.renew true (.ok r))) after := by
    rw [← hp]
    exact foldl_append
  rw [hrun] at hdrained ⊢
  have hturn : Informed (step k p (.renew true (.ok r))) := by
    simp [Informed, step, offer, hempty]
  have hmeets : ∀ p, Meets (step k) (fun _ a => a.installs = false) p after :=
    meets_of_forall fun a ha _ => hlast a ha
  have hend := run_inv (I := Informed) (fun _ _ ha h => informed_step h ha) hturn (hmeets _)
  rwa [Informed, hdrained, Option.toList_none, append_nil] at hend

theorem watcher_learns_newest_after_error :
    newest (run (step .net) (start "svid-1" ["root"])
      [.renew true (.error "lcm is away"), .receive, .renew true (.ok ("svid-2", ["root"])),
        .renew true (.error "lcm is away"), .receive]).received =
      some { id := "svid-2", roots := ["root"], ver := 2 } :=
  watcher_learns_newest .net "svid-1" ["root"] [.renew true (.error "lcm is away"), .receive]
    [.renew true (.error "lcm is away"), .receive] ("svid-2", ["root"]) (by decide) rfl rfl

/-- The error of a failed renewal lies in the channel, and the credential of the next one goes
unheard: the watcher that drains the channel then has no identity at all. -/
theorem credential_unheard :
    (run (step .enrolled) (start "svid-1" ["root"])
      [.renew true (.error "lcm is away"), .renew true (.ok ("svid-2", ["root"])),
        .receive]).slot = none ∧
    newest (run (step .enrolled) (start "svid-1" ["root"])
      [.renew true (.error "lcm is away"), .renew true (.ok ("svid-2", ["root"])),
        .receive]).received ≠
      some (run (step .enrolled) (start "svid-1" ["root"])
        [.renew true (.error "lcm is away"), .renew true (.ok ("svid-2", ["root"])),
          .receive]).st :=
  ⟨rfl, by decide⟩

end Watcher

end Lcm.Rotation
