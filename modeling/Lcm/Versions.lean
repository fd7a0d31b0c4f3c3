import Lcm.Protocol

/-!
# The versions of a certificate

While calls run, a certificate is around in several versions: the stored row, rows that calls have
read and still hold, the row as the call has stored it that minted it, and the old row with the
link a renewal is about to write. A write-back makes an older version the stored one again.

* `rowStep`: what one step can do to the table of certificates.
* `version_step`: each column of a version after a step comes from a version before it, or the
  version is of a new certificate.
* `versioned_exec`: in every run in which drawn ids are new, all versions of a certificate have one
  tenant, issuer and kind, and nothing refers to an id before it is stored.
* `versions_agree`: and they say the same of what was issued.
-/

namespace Lcm

open Conc Db Svc Issue Ca List

/-! ## One step -/

/-- How a step rewrites the certificate with the given id. -/
inductive Rewrite (g : Progress) (ev : Ev) (id : Id) : (IssuedCertificate → IssuedCertificate) → Prop
    where
  /-- the whole row is written back, with the changes of an update -/
  | update (subj : Subjects) (input : CertificateUpdate) (old : IssuedCertificate)
      (hev : ev = .updateCertificate (CertificateUpdate.apply input subj old) (.ok ()))
      (hold : g.copy = some old) (hid : old.id = id) :
      Rewrite g ev id (CertificateUpdate.apply input subj old).write
  /-- the certificate is linked to its successor -/
  | link (t : Id) (old row : IssuedCertificate)
      (hev : ev = .setCertificateStatus t id old.status (some row.id) (.ok ()))
      (hold : g.copy = some old) (hrow : g.minted = [row]) (hid : old.id = id) :
      Rewrite g ev id fun c => c.setStatus old.status (some row.id)
  | deliver (t : Id) (hev : ev = .markKeyDelivered t id (.ok ())) :
      Rewrite g ev id IssuedCertificate.delivered
  | revoke (t : Id) (hev : ev = .revoke t id (.ok ())) :
      Rewrite g ev id fun c => c.setStatus .revoked none

/-- What a step of a call on certificates does to their table. -/
inductive RowStep (P : Platform) (call : Call) (g : Progress) (e : Env) (s : Database) (ev : Ev)
    (s' : Database) : Prop where
  | same (hev : ∀ row, ev ≠ .insertCertificate row (.ok ()))
      (h : s'.certificates = s.certificates)
  | insert (row : IssuedCertificate) (hev : ev = .insertCertificate row (.ok ()))
      (hins : Inserted row s s') (hfirst : g.minted = []) (hnew : NewRow P call g row)
  | rewrite (id : Id) (f : IssuedCertificate → IssuedCertificate) (hf : ∀ c, (f c).id = c.id)
      (h : s'.certificates = s.certificates.update id f hf) (hw : Rewrite g ev id f)
  | delete (t id : Id) (hev : ev = .deleteCertificate t id (.ok ()))
      (h : s'.certificates = s.certificates.filter fun c => !(c.id == id))
  | restore (t : Id) (doc : Transfer.Document) (mode : String) (rep : Transfer.Report)
      (hev : ev = .importBackup t doc mode (.ok rep)) (himp : Transfer.Imported t doc mode s s')
      (hdraw : Transfer.DrawsIds e s s')

section Step

variable {P : Platform} {call : Call} {g : Progress} {e : Env} {s s' : Database} {ev : Ev}
  {f : IssuedCertificate → IssuedCertificate}

theorem rowStep (hhap : Happens e s ev s') (hproto : Protocol P call g ev) :
    RowStep P call g e s ev s' := by
  obtain ⟨heff, hans⟩ := hhap
  cases wrote P heff hproto with
  | nothing _ hev => exact .same hev rfl
  | insert _ hins hfirst hnew => exact .insert _ rfl hins hfirst hnew
  | update hold =>
    exact .rewrite _ _ (IssuedCertificate.write_id _) rfl (.update _ _ _ rfl hold rfl)
  | link hold hrow =>
    exact .rewrite _ _ (fun c => c.setStatus_id _ _) rfl (.link _ _ _ rfl hold hrow rfl)
  | deliver => exact .rewrite _ _ IssuedCertificate.delivered_id rfl (.deliver _ rfl)
  | revoke h => exact .rewrite _ _ (fun c => c.setStatus_id _ _) h.certificates (.revoke _ rfl)
  | delete h => exact .delete _ _ rfl h.certificates
  | restore h => exact .restore _ _ _ _ rfl h hans
  | complete h =>
    obtain ⟨-, cert, reason, rfl⟩ := h
    exact .same (by simp) rfl

theorem Rewrite.keeps {id : Id} (h : Rewrite g ev id f) (c : IssuedCertificate) :
    (f c).id = c.id ∧ (f c).tenantID = c.tenantID ∧ (f c).issuerID = c.issuerID ∧
      (f c).kind = c.kind ∧ (f c).certPEM = c.certPEM ∧ (f c).notBefore = c.notBefore ∧
      (f c).notAfter = c.notAfter := by
  cases h <;> exact ⟨rfl, rfl, rfl, rfl, rfl, rfl, rfl⟩

/-- Where a row comes from that is stored after the step. -/
inductive RowFrom (P : Platform) (call : Call) (g : Progress) (e : Env) (s : Database) (ev : Ev)
    (c' : IssuedCertificate) : Prop where
  | kept (h : c' ∈ s.certificates.rows)
  | rewritten (c : IssuedCertificate) (f : IssuedCertificate → IssuedCertificate)
      (hc : c ∈ s.certificates.rows) (hw : Rewrite g ev c.id f) (heq : c' = f c)
  | inserted (row : IssuedCertificate) (now : Time) (hev : ev = .insertCertificate row (.ok ()))
      (hfirst : g.minted = []) (hnew : NewRow P call g row) (heq : c' = row.stored now)
  | overwritten (c : IssuedCertificate) (status : CertStatus) (chainPEM : String)
      (updatedBy : Option String) (hc : c ∈ s.certificates.rows)
      (hev : ∃ t doc mode rep, ev = .importBackup t doc mode (.ok rep))
      (heq : c' = Transfer.overwritten c status chainPEM updatedBy)
  | restored (k : Nat) (hev : ∃ t doc mode rep, ev = .importBackup t doc mode (.ok rep))
      (hdrawn : c'.id = e.newID k) (hkey : c'.keySealed = []) (hlink : c'.supersededBy = none)
      (hkind : c'.kind.isSome)

theorem RowStep.rowFrom (h : RowStep P call g e s ev s') {c' : IssuedCertificate}
    (hc' : c' ∈ s'.certificates.rows) : RowFrom P call g e s ev c' := by
  cases h with
  | same _ h => exact .kept (h ▸ hc')
  | insert row hev hins hfirst hnew =>
    obtain ⟨now, hrows⟩ := hins.rows
    rw [hrows, mem_append, mem_singleton] at hc'
    rcases hc' with hc' | rfl
    · exact .kept hc'
    · exact .inserted row now hev hfirst hnew rfl
  | rewrite id f hf h hw =>
    rw [h, Table.rows_update] at hc'
    obtain ⟨c, hc, rfl⟩ := mem_map.1 hc'
    split
    · next hid =>
      subst hid
      exact .rewritten c f hc hw rfl
    · exact .kept hc
  | delete t id hev h =>
    rw [h] at hc'
    exact .kept (mem_of_mem_filter hc')
  | restore t doc mode rep hev himp hdraw =>
    cases himp.rows c' hc' with
    | stored c hc st chain by_ heq =>
      exact .overwritten c st chain by_ hc ⟨t, doc, mode, rep, hev⟩ heq
    | created hnew _ hkey hlink hkind =>
      rcases hdraw c' hc' with ⟨o, ho, hid⟩ | ⟨k, hk⟩
      · exact absurd hid (hnew o ho).1
      · exact .restored k ⟨t, doc, mode, rep, hev⟩ hk hkey hlink hkind

theorem RowStep.order (h : RowStep P call g e s ev s') {a b : Id}
    (hab : [a, b].Sublist s.certificates.keys) (ha : a ∈ s'.certificates.keys)
    (hb : b ∈ s'.certificates.keys) : [a, b].Sublist s'.certificates.keys := by
  cases h with
  | same _ h => exact h ▸ hab
  | insert row _ hins =>
    obtain ⟨now, ht⟩ := hins.table
    rw [Table.keys_insert ht]
    exact hab.trans (sublist_append_left _ _)
  | rewrite id f hf h _ =>
    rw [h, Table.keys_update]
    exact hab
  | delete t id _ h =>
    rw [h] at ha hb ⊢
    have hkeys : (s.certificates.filter fun c => !(c.id == id)).keys =
        s.certificates.keys.filter fun k => !(k == id) := by
      simp [Table.keys, filter_map, Function.comp_def]
    rw [hkeys] at ha hb ⊢
    have hsub := hab.filter fun k => !(k == id)
    rwa [filter_cons_of_pos (of_mem_filter ha),
      filter_cons_of_pos (of_mem_filter hb), filter_nil] at hsub
  | restore t doc mode rep _ himp _ => exact hab.trans himp.order.sublist

end Step

/-! ## Versions -/

/-- The row is around as a version of a certificate. -/
inductive Version (us : List (Record Database Ev Call)) (s : Database) : IssuedCertificate → Prop
    where
  | stored {r : IssuedCertificate} (h : r ∈ s.certificates.rows) : Version us s r
  /-- a call has read it -/
  | held {r : IssuedCertificate} {j : Nat} {u : Record Database Ev Call} (hu : us[j]? = some u)
      (h : (progress u.hist).copy = some r) : Version us s r
  /-- a call has stored it -/
  | minted {r : IssuedCertificate} {j : Nat} {u : Record Database Ev Call} (hu : us[j]? = some u)
      (h : r ∈ (progress u.hist).minted) : Version us s r
  /-- a renewal may write this link -/
  | linking {old row : IssuedCertificate} {j : Nat} {u : Record Database Ev Call}
      (hu : us[j]? = some u) (hold : (progress u.hist).copy = some old)
      (hrow : row ∈ (progress u.hist).minted) :
      Version us s { old with supersededBy := some row.id }

/-- Two versions are of one tenant, issuer and kind. -/
structure SameHome (r r' : IssuedCertificate) : Prop where
  tenantID : r'.tenantID = r.tenantID
  issuerID : r'.issuerID = r.issuerID
  kind : defaultKind r'.kind = defaultKind r.kind

variable {r r' : IssuedCertificate}

namespace SameHome

theorem refl (r : IssuedCertificate) : SameHome r r := ⟨rfl, rfl, rfl⟩

theorem symm (h : SameHome r r') : SameHome r' r :=
  ⟨h.tenantID.symm, h.issuerID.symm, h.kind.symm⟩

theorem trans {r'' : IssuedCertificate} (h : SameHome r r') (h' : SameHome r' r'') :
    SameHome r r'' :=
  ⟨h'.tenantID.trans h.tenantID, h'.issuerID.trans h.issuerID, h'.kind.trans h.kind⟩

end SameHome

/-- The columns of `SameHome`. -/
def IssuedCertificate.home (r : IssuedCertificate) : Id × Id × CertKind :=
  (r.tenantID, r.issuerID, defaultKind r.kind)

theorem sameHome_iff : SameHome r r' ↔ r.home = r'.home := by
  constructor
  · exact fun h => by rw [IssuedCertificate.home, IssuedCertificate.home, h.tenantID, h.issuerID, h.kind]
  intro h
  simp only [IssuedCertificate.home, Prod.mk.injEq] at h
  exact ⟨h.1.symm, h.2.1.symm, h.2.2.symm⟩

/-- The columns that say what was issued. -/
def IssuedCertificate.leaf (r : IssuedCertificate) : String × Time × Time :=
  (r.certPEM, r.notBefore, r.notAfter)

/-- Each column of the version comes from a version before the step; only a key may be gone. -/
structure Descends (us : List (Record Database Ev Call)) (s : Database) (ev : Ev)
    (r' : IssuedCertificate) : Prop where
  home : ∃ r, Version us s r ∧ r.id = r'.id ∧ SameHome r r'
  leaf : ∃ r, Version us s r ∧ r.id = r'.id ∧ r.leaf = r'.leaf
  link : ∃ r, Version us s r ∧ r.id = r'.id ∧ r.supersededBy = r'.supersededBy
  key : (∃ r, Version us s r ∧ r.id = r'.id ∧ r.keySealed = r'.keySealed) ∨
    ∃ t, ev = .markKeyDelivered t r'.id (.ok ())

variable {us : List (Record Database Ev Call)} {s : Database}

theorem Version.descends (h : Version us s r) (ev : Ev) : Descends us s ev r :=
  ⟨⟨r, h, rfl, .refl r⟩, ⟨r, h, rfl, rfl⟩, ⟨r, h, rfl, rfl⟩, .inl ⟨r, h, rfl, rfl⟩⟩

/-- A version of a certificate that the step has stored, or the link to it. -/
inductive Arrives (P : Platform) (call : Call) (g : Progress) (e : Env) (ev : Ev) (s' : Database) :
    IssuedCertificate → Prop where
  | inserted (row r' : IssuedCertificate) (hev : ev = .insertCertificate row (.ok ()))
      (hfirst : g.minted = []) (hnew : NewRow P call g row) (hid : r'.id = row.id)
      (hhome : SameHome row r') (hleaf : r'.leaf = row.leaf) (hkey : r'.keySealed = row.keySealed)
      (hlink : r'.supersededBy = none) : Arrives P call g e ev s' r'
  | linking (old row : IssuedCertificate) (hev : ev = .insertCertificate row (.ok ()))
      (hfirst : g.minted = []) (hnew : NewRow P call g row) (hold : g.copy = some old) :
      Arrives P call g e ev s' { old with supersededBy := some row.id }
  | restored (r' : IssuedCertificate) (k : Nat)
      (hev : ∃ t doc mode rep, ev = .importBackup t doc mode (.ok rep))
      (hstored : r' ∈ s'.certificates.rows) (hdrawn : r'.id = e.newID k)
      (hkey : r'.keySealed = []) (hlink : r'.supersededBy = none) : Arrives P call g e ev s' r'

section Versions

variable {P : Platform} {us : List (Record Database Ev Call)} {e : Env} {s s' : Database} {ev : Ev}
  {i : Nat} {t : Record Database Ev Call}

theorem RowFrom.descends_or_arrives (hi : us[i]? = some t) {c' : IssuedCertificate}
    (hc' : c' ∈ s'.certificates.rows)
    (h : RowFrom P t.call (progress t.hist) e s ev c') :
    Descends us s ev c' ∨ Arrives P t.call (progress t.hist) e ev s' c' := by
  cases h with
  | kept hc => exact .inl ((Version.stored hc).descends ev)
  | rewritten c f hc hw heq =>
    subst heq
    obtain ⟨hid, ht, hiss, hkind, hpem, hstart, hend⟩ := hw.keeps c
    have hstored : Version us s c := .stored hc
    have hhome : ∃ r, Version us s r ∧ r.id = (f c).id ∧ SameHome r (f c) :=
      ⟨c, hstored, hid.symm, ht, hiss, by rw [hkind]⟩
    have hleaf : ∃ r, Version us s r ∧ r.id = (f c).id ∧ r.leaf = (f c).leaf := by
      refine ⟨c, hstored, hid.symm, ?_⟩
      rw [IssuedCertificate.leaf, IssuedCertificate.leaf, hpem, hstart, hend]
    left
    cases hw with
    | update subj input old _ hold hold' =>
      have hheld : Version us s old := .held hi hold
      exact ⟨hhome, hleaf, ⟨old, hheld, hold', rfl⟩, .inl ⟨old, hheld, hold', rfl⟩⟩
    | link t' old row _ hold hrow hold' =>
      have hlinking : Version us s { old with supersededBy := some row.id } :=
        .linking hi hold (by rw [hrow]; exact mem_singleton_self row)
      exact ⟨hhome, hleaf, ⟨_, hlinking, hold', rfl⟩, .inl ⟨c, hstored, rfl, rfl⟩⟩
    | deliver t' hev => exact ⟨hhome, hleaf, ⟨c, hstored, rfl, rfl⟩, .inr ⟨t', hev⟩⟩
    | revoke t' _ => exact ⟨hhome, hleaf, ⟨c, hstored, rfl, rfl⟩, .inl ⟨c, hstored, rfl, rfl⟩⟩
  | inserted row now hev hfirst hnew heq =>
    subst heq
    exact .inr (.inserted row _ hev hfirst hnew rfl ⟨rfl, rfl, rfl⟩ rfl rfl hnew.supersededBy)
  | overwritten c st chain by_ hc _ heq =>
    subst heq
    have hstored : Version us s c := .stored hc
    exact .inl ⟨⟨c, hstored, rfl, rfl, rfl, rfl⟩, ⟨c, hstored, rfl, rfl⟩, ⟨c, hstored, rfl, rfl⟩,
      .inl ⟨c, hstored, rfl, rfl⟩⟩
  | restored k hev hdrawn hkey hlink => exact .inr (.restored c' k hev hc' hdrawn hkey hlink)

theorem version_step (hi : us[i]? = some t) (hhap : Happens e s ev s')
    (hproto : Protocol P t.call (progress t.hist) ev) (h : Version (us.set i (t.push ev)) s' r') :
    Descends us s ev r' ∨ Arrives P t.call (progress t.hist) e ev s' r' := by
  have hrow := rowStep hhap hproto
  have heff := hhap.effect
  -- what the thread holds after the step: what it held, or a row it has read
  have hcopy : ∀ r, ((progress t.hist).next ev).copy = some r →
      (progress t.hist).copy = some r ∨ r ∈ s.certificates.rows := by
    intro r hr
    rcases Progress.copy_next_cases heff hr with hr | ⟨_, _, -, -, hr⟩
    · exact .inl hr
    · exact .inr (Database.certificate?_eq_some.1 hr).1
  -- what it has stored: what it had, or the row of this step
  have hmint : ∀ row ∈ ((progress t.hist).next ev).minted, row ∈ (progress t.hist).minted ∨
      ev = .insertCertificate row (.ok ()) ∧ (progress t.hist).minted = [] ∧
        NewRow P t.call (progress t.hist) row := by
    intro row hrow'
    refine (Progress.mem_minted_next_cases hrow').imp_right ?_
    rintro rfl
    exact ⟨rfl, hproto⟩
  cases h with
  | stored hr => exact (hrow.rowFrom hr).descends_or_arrives hi hr
  | held hu hr =>
    rcases getElem?_set_cases hu with ⟨-, rfl⟩ | ⟨-, hu⟩
    · rw [Record.push_hist, progress_push] at hr
      rcases hcopy r' hr with hr | hr
      · exact .inl ((Version.held hi hr).descends ev)
      · exact .inl ((Version.stored hr).descends ev)
    · exact .inl ((Version.held hu hr).descends ev)
  | minted hu hr =>
    rcases getElem?_set_cases hu with ⟨-, rfl⟩ | ⟨-, hu⟩
    · rw [Record.push_hist, progress_push] at hr
      rcases hmint r' hr with hr | ⟨hev, hfirst, hnew⟩
      · exact .inl ((Version.minted hi hr).descends ev)
      · exact .inr (.inserted r' r' hev hfirst hnew rfl (.refl r') rfl rfl hnew.supersededBy)
    · exact .inl ((Version.minted hu hr).descends ev)
  | @linking old row j u hu hold hr =>
    rcases getElem?_set_cases hu with ⟨-, rfl⟩ | ⟨-, hu⟩
    · rw [Record.push_hist, progress_push] at hold hr
      rcases hmint row hr with hr0 | ⟨rfl, hfirst, hnew⟩
      · -- a call reads only before it stores
        rcases ((progress t.hist).steps ev).copy with hsame | ⟨t', id, c, rfl, -⟩
        · rw [hsame] at hold
          exact .inl ((Version.linking hi hold hr0).descends ev)
        · rw [hproto.2.1] at hr0
          cases hr0
      · exact .inr (.linking old row rfl hfirst hnew hold)
    · exact .inl ((Version.linking hu hold hr).descends ev)

end Versions

/-! ## New ids -/

/-- The id may be drawn by the step. -/
def Ev.Draws (e : Env) (id : Id) : Ev → Prop
  | .newID x => id = x
  | .importBackup _ _ _ _ => ∃ k, id = e.newID k
  | _ => False

/-- Nothing has the id, no link leads to it, and no call has drawn it. -/
structure Unused (us : List (Record Database Ev Call)) (s : Database) (id : Id) : Prop where
  version : ∀ r, Version us s r → r.id ≠ id ∧ r.supersededBy ≠ some id
  drawn : ∀ (j : Nat) (u : Record Database Ev Call), us[j]? = some u → id ∉ (progress u.hist).drawn

/-- `store.NewID` returns ids that have not been in use. -/
def DrawsNew (cfg : SysConfig) : SysAct → Prop
  | .spawn _ => True
  | .run i e => ∀ ev ∈ cfg.emits i e, ∀ id, ev.Draws e id → Unused cfg.records cfg.store id

def versions (us : List (Record Database Ev Call)) (s : Database) : List IssuedCertificate :=
  s.certificates.rows ++ us.flatMap fun u =>
    let g := progress u.hist
    g.copy.toList ++ g.minted ++ g.copy.toList.flatMap fun old =>
      g.minted.map fun row => { old with supersededBy := some row.id }

theorem mem_versions (h : Version us s r) : r ∈ versions us s := by
  unfold versions
  cases h with
  | stored hr => exact mem_append_left _ hr
  | held hu hr | minted hu hr =>
    refine mem_append_right _ (mem_flatMap.2 ⟨_, mem_of_getElem? hu, ?_⟩)
    simp [hr]
  | @linking old row j u hu hold hr =>
    refine mem_append_right _ (mem_flatMap.2 ⟨_, mem_of_getElem? hu, ?_⟩)
    refine mem_append_right _ (mem_flatMap.2 ⟨old, by simp [hold], ?_⟩)
    exact mem_map.2 ⟨row, hr, rfl⟩

/-- The event draws no id in use, and is no import. -/
def Ev.drawsUnused (us : List (Record Database Ev Call)) (s : Database) : Ev → Bool
  | .newID id => (versions us s).all (fun r => r.id != id && r.supersededBy != some id) &&
      us.all fun u => !((progress u.hist).drawn.contains id)
  | .importBackup _ _ _ _ => false
  | _ => true

/-- `DrawsNew`, as a check for runs without an import. -/
def drawsNew (cfg : SysConfig) : SysAct → Bool
  | .spawn _ => true
  | .run i e => (cfg.emits i e).all (Ev.drawsUnused cfg.records cfg.store)

theorem unused_of_drawsUnused {ev : Ev} (h : ev.drawsUnused us s = true) {e : Env} {id : Id}
    (hid : ev.Draws e id) : Unused us s id := by
  cases ev with
  | newID x =>
    obtain rfl : id = x := hid
    simp only [Ev.drawsUnused, Bool.and_eq_true, all_eq_true, bne_iff_ne, ne_eq,
      Bool.not_eq_true', contains_eq_mem, decide_eq_false_iff_not] at h
    exact ⟨fun r hr => h.1 r (mem_versions hr), fun j u hu => h.2 u (mem_of_getElem? hu)⟩
  | importBackup => cases h
  | _ => exact hid.elim

theorem drawsNew_of_check (cfg : SysConfig) (a : SysAct) (h : drawsNew cfg a = true) :
    DrawsNew cfg a := by
  cases a with
  | spawn c => trivial
  | run i e =>
    intro ev hev id hid
    exact unused_of_drawsUnused ((Option.all_eq_true _ _).1 h ev hev) hid

/-- What holds of all versions in every run. -/
structure Versioned (us : List (Record Database Ev Call)) (s : Database) : Prop where
  /-- nothing refers to an id that a call has drawn and not stored yet -/
  pending : ∀ (j : Nat) (u : Record Database Ev Call), us[j]? = some u →
    (progress u.hist).minted = [] → ∀ x ∈ (progress u.hist).drawn, ∀ r, Version us s r →
      r.id ≠ x ∧ r.supersededBy ≠ some x
  apart : ∀ (i j : Nat) (u v : Record Database Ev Call), us[i]? = some u → us[j]? = some v →
    i ≠ j → ∀ x ∈ (progress u.hist).drawn, x ∉ (progress v.hist).drawn
  minted : ∀ (j : Nat) (u : Record Database Ev Call), us[j]? = some u →
    ∀ row ∈ (progress u.hist).minted, row.id ∈ (progress u.hist).drawn
  home : ∀ r r', Version us s r → Version us s r' → r.id = r'.id → SameHome r r'
  /-- a call holds the certificate it is about -/
  loaded : ∀ (j : Nat) (u : Record Database Ev Call), us[j]? = some u →
    ∀ c, (progress u.hist).copy = some c → u.call.target? = some (c.tenantID, c.id)

section Ids

variable {P : Platform} {us : List (Record Database Ev Call)} {e : Env} {s s' : Database} {ev : Ev}
  {i : Nat} {t : Record Database Ev Call}

theorem version_new {c : Call} (h : Version (us ++ [Config.fresh c s]) s r) : Version us s r := by
  cases h with
  | stored hr => exact .stored hr
  | held hu hr =>
    rcases getElem?_append_cases hu with hu | rfl
    · exact .held hu hr
    · cases hr
  | minted hu hr =>
    rcases getElem?_append_cases hu with hu | rfl
    · exact .minted hu hr
    · cases hr
  | linking hu hold hr =>
    rcases getElem?_append_cases hu with hu | rfl
    · exact .linking hu hold hr
    · cases hold

theorem eq_of_version_nil {db : Database} (h : Version [] db r) (h' : Version [] db r')
    (hid : r.id = r'.id) : r = r' := by
  cases h with
  | stored hr =>
    cases h' with
    | stored hr' => exact db.certificates.eq_of_key_eq hr hr' hid
    | held hu | minted hu | linking hu => cases hu
  | held hu | minted hu | linking hu => cases hu

theorem versioned_nil (db : Database) : Versioned [] db where
  pending j u hu := by cases hu
  apart i j u v hu := by cases hu
  minted j u hu := by cases hu
  loaded j u hu := by cases hu
  home r r' hr hr' hid := eq_of_version_nil hr hr' hid ▸ .refl r

theorem Versioned.new (h : Versioned us s) (c : Call) : Versioned (us ++ [Config.fresh c s]) s where
  pending j u hu hmint x hx r hr := by
    rcases getElem?_append_cases hu with hu | rfl
    · exact h.pending j u hu hmint x hx r (version_new hr)
    · cases hx
  apart i j u v hu hv hij x hx hx' := by
    rcases getElem?_append_cases hu with hu | rfl
    · rcases getElem?_append_cases hv with hv | rfl
      · exact h.apart i j u v hu hv hij x hx hx'
      · cases hx'
    · cases hx
  minted j u hu row hrow := by
    rcases getElem?_append_cases hu with hu | rfl
    · exact h.minted j u hu row hrow
    · cases hrow
  loaded j u hu c' hc' := by
    rcases getElem?_append_cases hu with hu | rfl
    · exact h.loaded j u hu c' hc'
    · cases hc'
  home r r' hr hr' := h.home r r' (version_new hr) (version_new hr')

theorem Versioned.unseen (h : Versioned us s) (hi : us[i]? = some t) {row : IssuedCertificate}
    (hfirst : (progress t.hist).minted = []) (hnew : NewRow P t.call (progress t.hist) row)
    (hr : Version us s r) : r.id ≠ row.id ∧ r.supersededBy ≠ some row.id :=
  h.pending i t hi hfirst row.id hnew.drawn r hr

/-- A version that has just arrived, other than a link, is of a certificate nothing referred to. -/
theorem Versioned.unseen_of_arrives (h : Versioned us s) (hi : us[i]? = some t)
    (hdraws : ∀ id, ev.Draws e id → Unused us s id)
    (ha : Arrives P t.call (progress t.hist) e ev s' r') (hlink : r'.supersededBy = none)
    (hr : Version us s r) : r.id ≠ r'.id ∧ r.supersededBy ≠ some r'.id := by
  cases ha with
  | inserted row r' hev hfirst hnew hid =>
    rw [hid]
    exact h.unseen hi hfirst hnew hr
  | linking => cases hlink
  | restored r' k hev _ hdrawn =>
    obtain ⟨t', doc, mode, rep, rfl⟩ := hev
    exact (hdraws r'.id ⟨k, hdrawn⟩).version r hr

theorem drawn_next (g : Progress) (ev : Ev) : ∀ x ∈ g.drawn, x ∈ (g.next ev).drawn := by
  intro x hx
  rcases (g.steps ev).drawn with hsame | ⟨id, -, hd⟩
  · rwa [hsame]
  · rw [hd]
    exact mem_append_left _ hx

theorem drawn_cases (g : Progress) (hdraws : ∀ id, ev.Draws e id → Unused us s id) :
    ∀ x ∈ (g.next ev).drawn, x ∈ g.drawn ∨
      Unused us s x ∧ ∀ row, ev ≠ .insertCertificate row (.ok ()) := by
  intro x hx
  rcases (g.steps ev).drawn with hsame | ⟨id, rfl, hd⟩
  · exact .inl (hsame ▸ hx)
  rw [hd, mem_append, mem_singleton] at hx
  rcases hx with hx | rfl
  · exact .inl hx
  · exact .inr ⟨hdraws x rfl, by simp⟩

theorem unseen_step (hi : us[i]? = some t) (hhap : Happens e s ev s')
    (hproto : Protocol P t.call (progress t.hist) ev) {x : Id}
    (hold : ∀ r, Version us s r → r.id ≠ x ∧ r.supersededBy ≠ some x)
    (hrow : ∀ row, ev = .insertCertificate row (.ok ()) → NewRow P t.call (progress t.hist) row →
      row.id ≠ x)
    (hrest : ∀ id, (∃ t doc mode rep, ev = .importBackup t doc mode (.ok rep)) →
      ev.Draws e id → id ≠ x) (hr' : Version (us.set i (t.push ev)) s' r') :
    r'.id ≠ x ∧ r'.supersededBy ≠ some x := by
  rcases version_step hi hhap hproto hr' with hd | ha
  · obtain ⟨r, hr, hid, -⟩ := hd.home
    obtain ⟨q, hq, -, hlink⟩ := hd.link
    exact ⟨hid ▸ (hold r hr).1, hlink ▸ (hold q hq).2⟩
  cases ha with
  | inserted row r' hev hfirst hnew hid hhome hleaf hkey hlink =>
    rw [hid, hlink]
    exact ⟨hrow row hev hnew, by simp⟩
  | linking old row hev hfirst hnew hcopy =>
    refine ⟨(hold old (.held hi hcopy)).1, ?_⟩
    intro heq
    exact hrow row hev hnew (Option.some.inj heq)
  | restored r' k hev _ hdrawn hkey hlink =>
    rw [hlink]
    refine ⟨hrest r'.id hev ?_, by simp⟩
    obtain ⟨t', doc, mode, rep, rfl⟩ := hev
    exact ⟨k, hdrawn⟩

section Steps

variable (h : Versioned us s) (hi : us[i]? = some t) (hhap : Happens e s ev s')
  (hproto : Protocol P t.call (progress t.hist) ev)
  (hdraws : ∀ id, ev.Draws e id → Unused us s id)

include h hi hhap hproto hdraws

/-- What all versions of a certificate have in common before the step, they have in common after it,
except on the certificates of `D`. -/
theorem Versioned.agree_step {β : Type} {f : IssuedCertificate → β} {D : Id → Prop}
    (hbefore : ∀ r r', Version us s r → Version us s r' → r.id = r'.id → f r = f r' ∨ D r.id)
    (hdesc : ∀ r', Descends us s ev r' →
      (∃ r, Version us s r ∧ r.id = r'.id ∧ f r = f r') ∨ D r'.id)
    (hins : ∀ row r', SameHome row r' → r'.leaf = row.leaf → r'.keySealed = row.keySealed →
      f r' = f row)
    (hlink : ∀ old id, f { old with supersededBy := some id } = f old) :
    ∀ r r', Version (us.set i (t.push ev)) s' r → Version (us.set i (t.push ev)) s' r' →
      r.id = r'.id → f r = f r' ∨ D r.id := by
  -- a version that is not new agrees with an old one with its id
  have hfrom : ∀ q', Version (us.set i (t.push ev)) s' q' →
      ((∃ q, Version us s q ∧ q.id = q'.id ∧ f q = f q') ∨ D q'.id) ∨
        q'.supersededBy = none ∧ Arrives P t.call (progress t.hist) e ev s' q' := by
    intro q' hq'
    rcases version_step hi hhap hproto hq' with hd | ha
    · exact .inl (hdesc q' hd)
    cases ha with
    | inserted row q' hev hfirst hnew hid hhome hleaf hkey hnone =>
      exact .inr ⟨hnone, .inserted row q' hev hfirst hnew hid hhome hleaf hkey hnone⟩
    | linking old row hev hfirst hnew hcopy =>
      exact .inl (.inl ⟨old, .held hi hcopy, rfl, (hlink old row.id).symm⟩)
    | restored q' k hev hstored hdrawn hkey hnone =>
      exact .inr ⟨hnone, .restored q' k hev hstored hdrawn hkey hnone⟩
  intro r r' hr hr' hid
  rcases hfrom r hr with (⟨q, hq, hqid, hqr⟩ | hD) | ⟨hnone, ha⟩
  · rcases hfrom r' hr' with (⟨q', hq', hqid', hqr'⟩ | hD) | ⟨hnone', ha'⟩
    · rw [← hqr, ← hqr', ← hqid]
      exact hbefore q q' hq hq' (hqid.trans (hid.trans hqid'.symm))
    · exact .inr (hid ▸ hD)
    · exact absurd (hqid.trans hid) (h.unseen_of_arrives hi hdraws ha' hnone' hq).1
  · exact .inr hD
  rcases hfrom r' hr' with (⟨q', hq', hqid', hqr'⟩ | hD) | ⟨hnone', ha'⟩
  · exact absurd (hqid'.trans hid.symm) (h.unseen_of_arrives hi hdraws ha hnone hq').1
  · exact .inr (hid ▸ hD)
  left
  cases ha with
  | inserted row r hev hfirst hnew hrid hhome hleaf hkey =>
    cases ha' with
    | inserted row' r' hev' hfirst' hnew' hrid' hhome' hleaf' hkey' =>
      rw [hev] at hev'
      cases hev'
      exact (hins row r hhome hleaf hkey).trans (hins row r' hhome' hleaf' hkey').symm
    | linking => cases hnone'
    | restored r' k hev' =>
      obtain ⟨t', doc, mode, rep, hev'⟩ := hev'
      rw [hev] at hev'
      cases hev'
  | linking => cases hnone
  | restored r k hev hstored =>
    obtain ⟨t', doc, mode, rep, hev⟩ := hev
    cases ha' with
    | inserted row' r' hev' =>
      rw [hev] at hev'
      cases hev'
    | linking => cases hnone'
    | restored r' k' _ hstored' =>
      rw [s'.certificates.eq_of_key_eq hstored hstored' hid]

theorem Versioned.step : Versioned (us.set i (t.push ev)) s' where
  pending j u hu hmint x hx r' hr' := by
    rcases getElem?_set_cases hu with ⟨rfl, rfl⟩ | ⟨hne, hu⟩
    · rw [Record.push_hist, progress_push] at hmint hx
      have hmint0 : (progress t.hist).minted = [] := by
        by_contra hne
        exact Progress.minted_ne_nil_next hne ev hmint
      have hrow : ∀ row, ev ≠ .insertCertificate row (.ok ()) := by
        rintro row rfl
        simp [Progress.next] at hmint
      have hold : ∀ r, Version us s r → r.id ≠ x ∧ r.supersededBy ≠ some x := by
        rcases drawn_cases _ hdraws x hx with hx | ⟨hunused, -⟩
        · exact h.pending _ t hi hmint0 x hx
        · exact hunused.version
      refine unseen_step hi hhap hproto hold (fun row hev => absurd hev (hrow row)) ?_ hr'
      rintro id ⟨t', doc, mode, rep, rfl⟩ hid rfl
      exact (hdraws id hid).drawn _ t hi hx
    · refine unseen_step hi hhap hproto (h.pending j u hu hmint x hx) ?_ ?_ hr'
      · rintro row - hnew rfl
        exact h.apart j i u t hu hi hne row.id hx hnew.drawn
      · rintro id - hid rfl
        exact (hdraws id hid).drawn j u hu hx
  apart a b u v hu hv hab x hx hx' := by
    rcases getElem?_set_cases hu with ⟨rfl, rfl⟩ | ⟨hne, hu⟩
    · rcases getElem?_set_cases hv with ⟨rfl, rfl⟩ | ⟨-, hv⟩
      · exact hab rfl
      rw [Record.push_hist, progress_push] at hx
      rcases drawn_cases _ hdraws x hx with hx | ⟨hunused, -⟩
      · exact h.apart _ b t v hi hv hab x hx hx'
      · exact hunused.drawn b v hv hx'
    rcases getElem?_set_cases hv with ⟨rfl, rfl⟩ | ⟨-, hv⟩
    · rw [Record.push_hist, progress_push] at hx'
      rcases drawn_cases _ hdraws x hx' with hx' | ⟨hunused, -⟩
      · exact h.apart a _ u t ‹us[a]? = some u› hi hab x hx hx'
      · exact hunused.drawn a u ‹us[a]? = some u› hx
    · exact h.apart a b u v hu hv hab x hx hx'
  minted j u hu row hrow := by
    rcases getElem?_set_cases hu with ⟨rfl, rfl⟩ | ⟨-, hu⟩
    · rw [Record.push_hist, progress_push] at hrow ⊢
      refine drawn_next _ ev row.id ?_
      rcases Progress.mem_minted_next_cases hrow with hrow | rfl
      · exact h.minted _ t hi row hrow
      · exact hproto.2.drawn
    · exact h.minted j u hu row hrow
  loaded j u hu c hc := by
    rcases getElem?_set_cases hu with ⟨rfl, rfl⟩ | ⟨-, hu⟩
    · rw [Record.push_hist, progress_push] at hc
      rcases Progress.copy_next_cases hhap.effect hc with hc | ⟨t', id, rfl, -, hc⟩
      · exact h.loaded _ t hi c hc
      obtain ⟨-, hid, ht⟩ := Database.certificate?_eq_some.1 hc
      rw [ht, hid]
      exact hproto.2.2
    · exact h.loaded j u hu c hc
  home r r' hr hr' hid := by
    have hagree := h.agree_step hi hhap hproto hdraws (f := IssuedCertificate.home)
      (D := fun _ => False) ?_ ?_ ?_ ?_
    · exact sameHome_iff.2 ((hagree r r' hr hr' hid).resolve_right id)
    · exact fun q q' hq hq' hid => .inl (sameHome_iff.1 (h.home q q' hq hq' hid))
    · intro q' hd
      obtain ⟨q, hq, hid, hhome⟩ := hd.home
      exact .inl ⟨q, hq, hid, sameHome_iff.1 hhome⟩
    · exact fun row q' hhome _ _ => (sameHome_iff.1 hhome).symm
    · exact fun old id => rfl

end Steps

end Ids

/-! ## Every run -/

/-- The rule for invariants of the versions: in every run of such calls in which drawn ids are new,
what every step keeps holds in the end. -/
theorem versioned_exec {P : Platform} {ops : Call → Prop} (hops : ∀ c, ops c → c.OnCertificates)
    (hrun : ops .runOnce → ∀ cert, ops (.renewOne cert)) {db : Database} {as : List SysAct}
    (hcalls : ∀ a ∈ as, a.Calls ops) (hnew : AllMeet P DrawsNew db as)
    {X : List (Record Database Ev Call) → Database → Prop} (hdb : X [] db)
    (hbegin : ∀ us c s, X us s → X (us ++ [Config.fresh c s]) s)
    (hstep : ∀ us i t e s ev s', us[i]? = some t → ops t.call → Versioned us s → X us s →
      Happens e s ev s' → Protocol P t.call (progress t.hist) ev →
      (∀ id, ev.Draws e id → Unused us s id) → X (us.set i (t.push ev)) s') :
    Versioned (runFrom P db as).records (runFrom P db as).store ∧
      X (runFrom P db as).records (runFrom P db as).store := by
  refine Spec.records_exec (sound_certificates P hops hrun) (I := fun us s => Versioned us s ∧ X us s)
    ?_ ?_ (Spec.tracked_init db) ⟨versioned_nil db, hdb⟩ hcalls hnew
  · exact fun us c s h => ⟨h.1.new c, hbegin us c s h.2⟩
  intro cfg i e t ev s' hdraws ht hop hev hok h
  have hi := Config.records_getElem? ht
  have hunused : ∀ id, ev.Draws e id → Unused cfg.records cfg.store id := hdraws ev hev
  exact ⟨h.1.step hi hok.1 hok.2 hunused,
    hstep _ i _ e _ ev s' hi hop h.1 h.2 hok.1 hok.2 hunused⟩

/-- Whatever is written back: all versions of a certificate are of one tenant, issuer and kind, and
say the same of what was issued. -/
theorem versions_agree {P : Platform} {db : Database} {as : List SysAct}
    (hcalls : ∀ a ∈ as, a.Calls Call.OnCertificates) (hnew : AllMeet P DrawsNew db as)
    (hr : Version (runFrom P db as).records (runFrom P db as).store r)
    (hr' : Version (runFrom P db as).records (runFrom P db as).store r') (hid : r.id = r'.id) :
    r.home = r'.home ∧ r.leaf = r'.leaf := by
  have h := versioned_exec (fun _ h => h) (fun _ _ => trivial) hcalls hnew
    (X := fun us s => ∀ r r', Version us s r → Version us s r' → r.id = r'.id → r.leaf = r'.leaf)
    ?_ ?_ ?_
  · exact ⟨sameHome_iff.1 (h.1.home r r' hr hr' hid), h.2 r r' hr hr' hid⟩
  · intro r r' hr hr' hid
    rw [eq_of_version_nil hr hr' hid]
  · exact fun us c s h r r' hr hr' => h r r' (version_new hr) (version_new hr')
  intro us i t e s ev s' hi _ hV h hhap hproto hdraws r r' hr hr' hid
  have hagree := hV.agree_step hi hhap hproto hdraws (f := IssuedCertificate.leaf)
    (D := fun _ => False) ?_ ?_ ?_ ?_
  · exact (hagree r r' hr hr' hid).resolve_right not_false
  · exact fun q q' hq hq' hid => .inl (h q q' hq hq' hid)
  · exact fun q' hd => .inl hd.leaf
  · exact fun row q' _ hleaf _ => hleaf
  · exact fun old id => rfl

set_option maxRecDepth 4000 in
open Sample in
/-- An update holds the certificate as it was before a `Revoke`. -/
theorem versions_agree_revoked : certRow.setStatus .revoked none ∈ (runFrom platform database
    (.spawn (.updateCertificate admin 4 ⟨"bob", none⟩) :: steps 0 4 10 ++
      .spawn (.revoke admin 4 "") :: steps 1 7 20)).store.certificates.rows ∧
    (certRow.setStatus .revoked none).leaf = certRow.leaf := by
  refine (and_iff_left_of_imp fun h => (versions_agree ?_ ?_ (.stored h)
    (.held (j := 0) rfl rfl) ?_).2).2 (by decide)
  · simp [steps, Act.Calls, Call.OnCertificates]
  · exact Config.Meets.mono _ drawsNew_of_check (by decide)
  · rfl

end Lcm
