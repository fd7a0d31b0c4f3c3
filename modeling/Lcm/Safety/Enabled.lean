import Lcm.Issuance
import Lcm.Transfer.Invariants

/-!
# Disabled issuers

An issuer has an `enabled` flag, which administrators set and clients see, and which none of the
ways to a certificate looks at: an issuer that is disabled goes on issuing.

* `minted_enabled` — an issuer issues from an enabled row only as long as no administrator
  disables it;
* `disabled_issuer_issues` — the run that shows that nothing else stops it.
-/

namespace Lcm

open Conc Db Svc Ca Issue Issuance Database

/-- The administrator's call does not disable the issuer `x`, and creates no disabled one. -/
def Call.LeavesEnabled (x : Id) : Call → Prop
  | createIssuer _ input => input.enabled = true
  | updateIssuer _ id input => id = x → input.enabled = true
  | _ => True

/-- The row of the issuer, if there is one, is enabled. -/
def Database.IsEnabled (x : Id) (s : Database) : Prop :=
  ∀ i ∈ s.issuers.rows, i.id = x → i.enabled = true

instance (x : Id) (s : Database) : Decidable (s.IsEnabled x) :=
  inferInstanceAs (Decidable (∀ _ ∈ _, _))

def Ev.readsIssuer? : Ev → Option Issuer
  | readIssuer (.ok issuer) => some issuer
  | _ => none

/-- The issuer that thread `j` reads at place `k` of the run. -/
def issuerReadAt (P : Platform) (db : Database) (as : List SysAct) (j k : Nat) : Option Issuer :=
  match as[k]? with
  | some (.run i e) =>
    if i = j then ((runFrom P db (as.take k)).emits j e).bind Ev.readsIssuer? else none
  | _ => none

/-- Thread `j` has read a row of the issuer `x` that was enabled in the database at that moment. -/
def ReadEnabled (P : Platform) (db : Database) (as : List SysAct) (x : Id) (j : Nat) : Prop :=
  ∃ k < as.length, ∃ issuer ∈ issuerReadAt P db as j k, issuer.id = x ∧
    issuer ∈ (storeAt P db as k).issuers.rows ∧ issuer.enabled = true

instance (P : Platform) (db : Database) (as : List SysAct) (x : Id) (j : Nat) :
    Decidable (ReadEnabled P db as x j) := inferInstanceAs (Decidable (∃ _ < _, _))

/-- Every call of the run that has stored a certificate of the issuer `x` has read its issuer
enabled. -/
def MintedEnabled (P : Platform) (db : Database) (as : List SysAct) (x : Id) : Prop :=
  ∀ j < (runFrom P db as).threads.length, ∀ t ∈ (runFrom P db as).threads[j]?,
    ∀ row ∈ t.hist.filterMap Ev.mints?, row.issuerID = x → ReadEnabled P db as x j

instance (P : Platform) (db : Database) (as : List SysAct) (x : Id) :
    Decidable (MintedEnabled P db as x) := inferInstanceAs (Decidable (∀ _ < _, _))

namespace Enabled

variable {P : Platform} {x : Id}

/-! ## The statements -/

theorem isEnabled_congr (s s' : Database) (h : s'.issuers = s.issuers) (hs : s.IsEnabled x) :
    s'.IsEnabled x := by
  unfold IsEnabled
  rw [h]
  exact hs

theorem holds_clear (t : Id) (td : String) (id : Id) :
    Tx.Holds (IsEnabled x) (fun _ => True) (Sql.clearDefaultIssuer t td id) := by
  refine Sql.holds_clearDefaultIssuer fun s hs i hi hid => ?_
  obtain ⟨o, ho, rfl⟩ := List.mem_map.1 hi
  rw [Sql.undefault_id] at hid
  unfold Sql.undefault
  split
  · exact hs o ho hid
  · exact hs o ho hid

theorem holds_insert {i : Issuer} (hi : i.enabled = true) :
    Tx.Holds (IsEnabled x) (fun _ => True) (Sql.insertIssuer P i) := by
  refine Sql.holds_insertIssuer fun s t hs _ _ ht => ⟨fun o ho hid => ?_, trivial⟩
  rw [(Table.insert?_eq_some ht).2, List.mem_append, List.mem_singleton] at ho
  rcases ho with ho | rfl
  · exact hs o ho hid
  · exact hi

theorem holds_update {i : Issuer} (hi : i.id = x → i.enabled = true) :
    Tx.Holds (IsEnabled x) (fun _ => True) (Sql.updateIssuer P i) := by
  refine Sql.holds_updateIssuer fun s old hs _ _ _ _ o ho => ?_
  obtain ⟨r, hr, rfl⟩ := List.mem_map.1 ho
  split
  · next hkey => exact fun hid => hi (hkey.symm.trans hid)
  · exact hs r hr

theorem holds_delete (t id : Id) :
    Tx.Holds (IsEnabled x) (fun _ => True) (Sql.deleteIssuer t id) :=
  Sql.holds_deleteIssuer fun _ hs _ i hi => hs i (List.mem_filter.1 hi).1

theorem holds_import (subj : Subjects) (doc : Transfer.Document) (mode : String) :
    Tx.Holds (IsEnabled x) (fun _ => True) (Transfer.importTx P subj doc mode) :=
  Transfer.holds_importTx_of_issuers (W := fun row => row.id = x → row.enabled = true)
    isEnabled_congr (fun _ hs => hs) (fun _ _ _ _ _ hrow => holds_update hrow)
    fun _ _ _ _ _ => holds_insert rfl

/-! ## Runs -/

theorem isEnabled_step {may : Nat → Env → Database → Prop} {c : Call} {h : Trail Ev} {e : Env}
    {ev : Ev} {s s' : Database} (hc : c.LeavesEnabled x) (hd : Does P may c h e s ev s')
    (hs : s.IsEnabled x) : s'.IsEnabled x := by
  refine hd.keeps isEnabled_congr holds_clear ?_ ?_ holds_delete
    (fun subj doc mode _ => holds_import subj doc mode) hs
  · rintro subj input id type caID blob shown rfl
    exact holds_insert (i := newIssuer subj input id type caID blob shown) hc
  · rintro subj input old blob shown rfl
    exact holds_update (i := IssuerInput.apply input subj old blob shown) hc

end Enabled

open Enabled

/-- An issuer that is enabled at the start and that no call of the run disables issues from an
enabled row only. -/
theorem minted_enabled {P : Platform} {db : Database} {as : List SysAct} {x : Id}
    (hdb : db.IsEnabled x)
    (hcalls : ∀ a ∈ as, a.Calls fun c => c.OnIssuance ∧ c.LeavesEnabled x) :
    MintedEnabled P db as x := by
  intro j _ t ht row hrow hissuer
  obtain ⟨ev, hev, hmint⟩ := List.mem_filterMap.1 hrow
  obtain rfl := Ev.mints?_eq_some hmint
  obtain ⟨-, m, h, e, hat⟩ := stepAt_of_hist (fun _ h => h.1) hcalls ht hev
  -- the certificate has the issuer that its call has read
  obtain ⟨-, issuer, k, hread, hid, hsaw, -⟩ := hat.does.because
  obtain ⟨_, e', -, hat'⟩ := stepAt_of_mem hat.trail hread
  obtain ⟨-, -, -, hstored, -⟩ := Saw.at hsaw
  have hx : issuer.id = x := hid.symm.trans hissuer
  have hk : k < as.length := hat'.lt
  refine ⟨k, hk, issuer, ?_, hx, hstored, ?_⟩
  · simp [issuerReadAt, hat'.act, hat'.emits, Ev.readsIssuer?]
  · exact storeAt_inv (I := fun s => s.IsEnabled x) (fun _ h => h.1) hcalls
      (fun _ _ _ _ _ _ hop hd => isEnabled_step hop.2 hd) hdb (Nat.le_of_lt hk) issuer hstored hx

open Sample

/-- An administrator disables the issuer of the sample, and asks it for a certificate. -/
def issueFromDisabled : List SysAct :=
  .spawn (.updateIssuer admin 3 ⟨"main", "", "td", true, false, "", "", "", .empty⟩) ::
    steps 0 6 20 ++ .spawn (.issue admin keyInput) :: steps 1 13 30

theorem disabled_issuer_issues :
    ¬MintedEnabled platform database issueFromDisabled 3 := by
  decide +kernel

/-- The same with an update that leaves the issuer enabled. -/
def issueFromEnabled : List SysAct :=
  .spawn (.updateIssuer admin 3 ⟨"main", "", "td", true, true, "", "", "", .empty⟩) ::
    steps 0 6 20 ++ .spawn (.issue admin keyInput) :: steps 1 13 30

theorem minted_enabled_sample :
    ((runFrom platform database issueFromEnabled).threads[1]?.any fun t =>
      (t.hist.filterMap Ev.mints?).any fun row => row.issuerID = 3) = true ∧
    MintedEnabled platform database issueFromEnabled 3 := by
  refine ⟨by decide +kernel, minted_enabled (by decide) ?_⟩
  simp [issueFromEnabled, steps, Act.Calls, Call.OnIssuance, Call.LeavesEnabled]

end Lcm
