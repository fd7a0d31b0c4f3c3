import Lcm.Versions
import Mathlib.Logic.Relation

/-!
# Do superseded certificates stay in order?

A renewal stores the new certificate first and then links the old one to it, in a repository call of
its own. An `UpdateCertificate` writes back the whole row it has read, with the link in it, so links
come and go: one may be overwritten by an older version of the row, and written again.

* `supersession_ordered`: in every run in which drawn ids are new, the links form no cycle, and each
  link to a stored certificate leads to a later one of the same tenant, issuer and kind.
-/

namespace Lcm

open Conc Db Svc Issue List Table

/-- A stored certificate is superseded by the one with the given id. -/
def Database.LinksTo (s : Database) (a b : Id) : Prop :=
  ∃ c ∈ s.certificates.rows, c.id = a ∧ c.supersededBy = some b

/-- The certificate `d` is later than `c`, and of the same tenant, issuer and kind. -/
structure Succeeds (s : Database) (c d : IssuedCertificate) : Prop where
  tenantID : d.tenantID = c.tenantID
  issuerID : d.issuerID = c.issuerID
  kind : d.kind = c.kind
  order : [c.id, d.id].Sublist s.certificates.keys

/-- Every stored certificate has a kind, and links lead to later certificates like it. -/
structure Database.InOrder (s : Database) : Prop where
  kinds : ∀ c ∈ s.certificates.rows, c.kind.isSome
  links : ∀ c ∈ s.certificates.rows, ∀ d ∈ s.certificates.rows, c.supersededBy = some d.id →
    Succeeds s c d

/-! ## Links that lead to later certificates form no cycle -/

namespace Succession

section Order

variable {s : Database}

theorem before_trans {l : List Id} (hl : l.Nodup) {a b c : Id} (hab : [a, b].Sublist l)
    (hbc : [b, c].Sublist l) : [a, c].Sublist l := by
  induction l with
  | nil => cases hab
  | cons x l ih =>
    have hx : x ∉ l := (nodup_cons.1 hl).1
    have hmem {y z : Id} (h : [y, z].Sublist l) : y ∈ l ∧ z ∈ l :=
      ⟨h.subset mem_cons_self, h.subset (mem_cons_of_mem y mem_cons_self)⟩
    cases hab with
    | cons _ hab =>
      cases hbc with
      | cons _ hbc => exact (ih (nodup_cons.1 hl).2 hab hbc).cons x
      | cons_cons _ hbc => exact absurd (hmem hab).2 hx
    | cons_cons _ hab =>
      cases hbc with
      | cons _ hbc => exact .cons_cons a (singleton_sublist.2 (hmem hbc).2)
      | cons_cons _ hbc => exact absurd (singleton_sublist.1 hab) hx

theorem before_of_path (h : s.InOrder) {a b : Id} (hpath : Relation.TransGen s.LinksTo a b)
    (hb : b ∈ s.certificates.keys) : [a, b].Sublist s.certificates.keys := by
  have hlink {x y : Id} (hxy : s.LinksTo x y) (hy : y ∈ s.certificates.keys) :
      [x, y].Sublist s.certificates.keys := by
    obtain ⟨c, hc, rfl, hlink⟩ := hxy
    obtain ⟨d, hd, rfl⟩ := mem_keys.1 hy
    exact (h.links c hc d hd hlink).order
  induction hpath with
  | single hab => exact hlink hab hb
  | @tail x y hpath hxy ih =>
    obtain ⟨c, hc, hcx, hcy⟩ := hxy
    have hx : x ∈ s.certificates.keys := mem_keys.2 ⟨c, hc, hcx⟩
    exact before_trans s.certificates.nodup (ih hx) (hlink ⟨c, hc, hcx, hcy⟩ hb)

theorem no_cycle (h : s.InOrder) (a : Id) : ¬ Relation.TransGen s.LinksTo a a := by
  intro hpath
  -- the path starts at a stored certificate
  have ha : a ∈ s.certificates.keys := by
    obtain ⟨b, ⟨c, hc, hca, -⟩, -⟩ := Relation.TransGen.head'_iff.1 hpath
    exact mem_keys.2 ⟨c, hc, hca⟩
  -- a list without repetitions puts no element before itself
  have hnodup := s.certificates.nodup.sublist (before_of_path h hpath ha)
  simp at hnodup

end Order

/-! ## Every run -/

/-- Links of all versions lead to later certificates like them. -/
structure Ordered (us : List (Record Database Ev Call)) (s : Database) : Prop where
  kinds : ∀ c ∈ s.certificates.rows, c.kind.isSome
  links : ∀ r, Version us s r → ∀ d ∈ s.certificates.rows, r.supersededBy = some d.id →
    SameHome r d ∧ (r.id ∈ s.certificates.keys → [r.id, d.id].Sublist s.certificates.keys)

section Run

variable {P : Platform} {us : List (Record Database Ev Call)} {e : Env} {s s' : Database} {ev : Ev}
  {i : Nat} {t : Record Database Ev Call}

theorem Ordered.inOrder (h : Ordered us s) : s.InOrder where
  kinds := h.kinds
  links c hc d hd hlink := by
    obtain ⟨hhome, horder⟩ := h.links c (.stored hc) d hd hlink
    refine ⟨hhome.tenantID, hhome.issuerID, ?_, horder (mem_keys.2 ⟨c, hc, rfl⟩)⟩
    obtain ⟨k, hk⟩ := Option.isSome_iff_exists.1 (h.kinds c hc)
    obtain ⟨k', hk'⟩ := Option.isSome_iff_exists.1 (h.kinds d hd)
    have hkind := hhome.kind
    rw [hk, hk'] at hkind
    rw [hk, hk']
    exact congrArg some hkind

theorem ordered_of_inOrder {db : Database} (h : db.InOrder) : Ordered [] db where
  kinds := h.kinds
  links r hr d hd hlink := by
    cases hr with
    | stored hr =>
      obtain ⟨ht, hi, hk, ho⟩ := h.links r hr d hd hlink
      exact ⟨⟨ht, hi, by rw [hk]⟩, fun _ => ho⟩
    | held hu | minted hu | linking hu => cases hu

theorem tenant_eq_of_target {call : Call} {x t' : Id} {id : Id}
    (htarget : call.target? = some (x, id)) (ht : call.tenant? = some t') : t' = x := by
  cases call with
  | renew subj c | renewSystem y c | renewOne c =>
    obtain ⟨rfl, -⟩ := Prod.mk.inj (Option.some.inj htarget)
    exact (Option.some.inj ht).symm
  | issue | obtainACMEFor | importACME => cases htarget
  | _ => cases ht

theorem sameHome_of_new {old row : IssuedCertificate} {call : Call} {g : Progress}
    (hnew : NewRow P call g row) (hold : g.copy = some old)
    (hloaded : call.target? = some (old.tenantID, old.id)) : SameHome old row := by
  have htenant : row.tenantID = old.tenantID := tenant_eq_of_target hloaded hnew.tenant
  cases hnew.made with
  | minted subj issuer sid req caRow now serial der hactor hasked hrow hsigned =>
    cases hasked with
    | issued subj' input hcall =>
      subst hcall
      cases hloaded
    | renewed old' hold' hkind hsid hissuer hreq =>
      obtain rfl : old = old' := Option.some.inj (hold.symm.trans hold')
      refine ⟨htenant, by rw [hrow]; exact hissuer, ?_⟩
      rw [hrow]
      -- an SVID is renewed by an SVID
      cases hk : old.kind with
      | none => rfl
      | some k =>
        cases k with
        | svid => rfl
        | generic => exact absurd hk hkind
  | ordered subj r issuerID names csr dk ar ds chain leafPEM restPEM leaf der hcall =>
    subst hcall
    cases hloaded
  | reordered subj old' ds chain leafPEM restPEM leaf der key pem nonce hactor hold' hkind hds
      hsplit hrow =>
      obtain rfl : old = old' := Option.some.inj (hold.symm.trans hold')
      exact ⟨htenant, by rw [hrow]; rfl, by rw [hrow, hkind]; rfl⟩
  | imported subj input leaf der chain pem ds nonce hcall =>
    subst hcall
    cases hloaded

theorem kinds_step (h : RowStep P t.call (progress t.hist) e s ev s')
    (hkinds : ∀ c ∈ s.certificates.rows, c.kind.isSome) :
    ∀ c ∈ s'.certificates.rows, c.kind.isSome := by
  intro c' hc'
  cases h.rowFrom hc' with
  | kept hc => exact hkinds c' hc
  | rewritten c f hc hw heq =>
    obtain ⟨-, -, -, hkind, -⟩ := hw.keeps c
    rw [heq, hkind]
    exact hkinds c hc
  | inserted row now _ _ _ heq =>
    rw [heq]
    rfl
  | overwritten c st chain by_ hc _ heq =>
    rw [heq]
    exact hkinds c hc
  | restored _ _ _ _ _ hkind => exact hkind

theorem target_cases (hV : Versioned us s) (hi : us[i]? = some t)
    (hrow : RowStep P t.call (progress t.hist) e s ev s')
    (hdraws : ∀ id, ev.Draws e id → Unused us s id) {d' : IssuedCertificate}
    (hd' : d' ∈ s'.certificates.rows) :
    (∃ d ∈ s.certificates.rows, d.id = d'.id ∧ SameHome d d') ∨
      ∀ r, Version us s r → r.id ≠ d'.id ∧ r.supersededBy ≠ some d'.id := by
  cases hrow.rowFrom hd' with
  | kept hd => exact .inl ⟨d', hd, rfl, .refl d'⟩
  | rewritten d f hd hw heq =>
    obtain ⟨hid, ht, hiss, hkind, -⟩ := hw.keeps d
    subst heq
    exact .inl ⟨d, hd, hid.symm, ht, hiss, by rw [hkind]⟩
  | inserted row now hev hfirst hnew heq =>
    subst heq
    exact .inr fun r hr => (hV.unseen hi hfirst hnew hr :)
  | overwritten d st chain by_ hd _ heq =>
    subst heq
    exact .inl ⟨d, hd, rfl, rfl, rfl, rfl⟩
  | restored k hev hdrawn =>
    obtain ⟨t', doc, mode, rep, rfl⟩ := hev
    exact .inr (hdraws d'.id ⟨k, hdrawn⟩).version

theorem Ordered.step (h : Ordered us s) (hV : Versioned us s) (hi : us[i]? = some t)
    (hhap : Happens e s ev s') (hproto : Protocol P t.call (progress t.hist) ev)
    (hdraws : ∀ id, ev.Draws e id → Unused us s id) : Ordered (us.set i (t.push ev)) s' := by
  have hrow := rowStep hhap hproto
  refine ⟨kinds_step hrow h.kinds, fun r' hr' d' hd' hlink => ?_⟩
  have hkey' : d'.id ∈ s'.certificates.keys := mem_keys.2 ⟨d', hd', rfl⟩
  rcases version_step hi hhap hproto hr' with hdesc | harr
  · -- the link is that of an older version, which leads to a certificate of before
    obtain ⟨q, hq, hqid, hqlink⟩ := hdesc.link
    obtain ⟨r, hr, hrid, hhome⟩ := hdesc.home
    rw [hlink] at hqlink
    rcases target_cases hV hi hrow hdraws hd' with ⟨d, hd, hdid, hdhome⟩ | hunseen
    · rw [← hdid] at hqlink
      obtain ⟨hqd, horder⟩ := h.links q hq d hd hqlink
      have hrq : SameHome r q := hV.home r q hr hq (hrid.trans hqid.symm)
      refine ⟨hhome.symm.trans (hrq.trans (hqd.trans hdhome)), fun hkey => ?_⟩
      have hbefore : q.id ∈ s.certificates.keys := by
        obtain ⟨c', hc', hcid⟩ := mem_keys.1 hkey
        rcases target_cases hV hi hrow hdraws hc' with ⟨c, hc, hid, -⟩ | hunseen
        · exact mem_keys.2 ⟨c, hc, hid.trans (hcid.trans hqid.symm)⟩
        · exact absurd (hqid.trans hcid.symm) (hunseen q hq).1
      have hsub := horder hbefore
      rw [hqid, hdid] at hsub
      exact hrow.order hsub hkey hkey'
    · exact absurd hqlink (hunseen q hq).2
  · cases harr with
    | inserted row r' hev hfirst hnew hid hhome hleaf hkey hnone
    | restored r' k hev hstored hdrawn hkey hnone =>
      rw [hnone] at hlink
      cases hlink
    | linking old row hev hfirst hnew hold =>
      -- the link to the certificate that has just been stored
      subst hev
      have hid : row.id = d'.id := Option.some.inj hlink
      have hmem : row ∈ (progress (t.push (.insertCertificate row (.ok ()))).hist).minted := by
        rw [Record.push_hist, progress_push]
        exact mem_append_right _ (mem_singleton_self row)
      have hat : (us.set i (t.push (.insertCertificate row (.ok ()))))[i]? =
          some (t.push (.insertCertificate row (.ok ()))) :=
        getElem?_set_self (List.getElem?_eq_some_iff.1 hi).1
      have hhome := (hV.step hi hhap hproto hdraws).home row d' (.minted hat hmem) (.stored hd') hid
      have hlike := (sameHome_of_new hnew hold (hV.loaded i t hi old hold)).trans hhome
      refine ⟨⟨hlike.tenantID, hlike.issuerID, hlike.kind⟩, fun hkey => ?_⟩
      obtain ⟨now, hins⟩ := Inserted.table hhap.effect
      rw [keys_insert hins] at hkey ⊢
      rcases mem_append.1 hkey with hkey | hkey
      · rw [← hid]
        exact (singleton_sublist.2 hkey).append (List.Sublist.refl [row.id])
      · exact absurd (mem_singleton.1 hkey) (hV.unseen hi hfirst hnew (.held hi hold)).1

end Run

end Succession

open Succession

/-- In every run of the calls on certificates in which drawn ids are new, following the links never
leads back, and each link to a stored certificate leads to a later one of the same tenant, issuer
and kind. -/
theorem supersession_ordered {P : Platform} {db : Database} {as : List SysAct} (hdb : db.InOrder)
    (hcalls : ∀ a ∈ as, a.Calls Call.OnCertificates) (hnew : AllMeet P DrawsNew db as) :
    (∀ id, ¬ Relation.TransGen (runFrom P db as).store.LinksTo id id) ∧
      ∀ c ∈ (runFrom P db as).store.certificates.rows,
        ∀ d ∈ (runFrom P db as).store.certificates.rows, c.supersededBy = some d.id →
          Succeeds (runFrom P db as).store c d := by
  have hordered : Ordered (runFrom P db as).records (runFrom P db as).store := by
    refine (versioned_exec (fun _ h => h) (fun _ _ => trivial) hcalls hnew
      (ordered_of_inOrder hdb) ?_ ?_).2
    · exact fun us c s h => ⟨h.kinds, fun r hr => h.links r (version_new hr)⟩
    · intro us i t e s ev s' hi _ hV h hhap hproto hdraws
      exact h.step hV hi hhap hproto hdraws
  exact ⟨no_cycle hordered.inOrder, hordered.inOrder.links⟩

/-! ## Two renewals in the sample deployment -/

namespace Sample

/-- The certificate is renewed, and then its successor, while an update holds the old row. -/
def renewTwice : List SysAct :=
  .spawn (.updateCertificate admin 4 ⟨"bob", none⟩) :: steps 0 4 5 ++
    .spawn (.renew admin 4) :: steps 1 20 10 ++ .spawn (.renew admin 10) :: steps 2 20 20

theorem inOrder_database : database.InOrder where
  kinds := by decide
  links c hc d _ hlink := by
    obtain rfl := mem_singleton.1 hc
    cases hlink

end Sample

open Sample

set_option maxRecDepth 100000 in
/-- The links lead from the first certificate to the second and on to the third. -/
theorem supersession_ordered_twice :
    ∃ c ∈ (runFrom platform database renewTwice).store.certificates.rows,
      ∃ d ∈ (runFrom platform database renewTwice).store.certificates.rows,
        c.id = 4 ∧ d.id = 10 ∧ d.supersededBy = some 20 ∧
          Succeeds (runFrom platform database renewTwice).store c d := by
  have hchecked : AllMeet platform (fun cfg a => drawsNew cfg a = true) database
      renewTwice := by decide
  have hcalls : ∀ a ∈ renewTwice, a.Calls Call.OnCertificates := by
    simp [renewTwice, steps, Act.Calls, Call.OnCertificates]
  obtain ⟨-, hlinks⟩ := supersession_ordered inOrder_database hcalls
    (Config.Meets.mono _ drawsNew_of_check hchecked)
  have hrows : ∃ c ∈ (runFrom platform database
        renewTwice).store.certificates.rows,
      ∃ d ∈ (runFrom platform database renewTwice).store.certificates.rows,
        c.id = 4 ∧ d.id = 10 ∧ d.supersededBy = some 20 ∧ c.supersededBy = some d.id := by decide
  obtain ⟨c, hc, d, hd, hcid, hdid, hnext, hlink⟩ := hrows
  exact ⟨c, hc, d, hd, hcid, hdid, hnext, hlinks c hc d hd hlink⟩

end Lcm
