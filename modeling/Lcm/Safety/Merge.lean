import Lcm.Safety.RoundTrip
import Lcm.Safety.VeiledCalls

/-!
# What an update makes of the settings

A client edits the settings it has been shown, with markers for the credentials, and sends them
back. `Redact` and `Merge` tell strings from other values only.

* `merge_redacted_form`: the edits of a form take effect, and nothing else changes.
* `new_credentials_apply_iff`: a new credential takes effect just when it is a string; a nested
  object, a list or a number removes the stored one.
-/

namespace Lcm

open Db Svc Ca

namespace Settings

/-- Fields are set or removed one after the other. -/
def edit (s : Settings) (edits : List (String × Option SettingValue)) : Settings :=
  edits.foldl (fun s x =>
    match x.2 with
    | some v => s.set x.1 v
    | none => s.erase x.1) s

variable {s s' stored incoming : Settings} {edits : List (String × Option SettingValue)}
  {fs : List String} {k : String}

theorem get?_edit_cons (s : Settings) (x : String × Option SettingValue) (k : String) :
    (s.edit [x]).get? k = if k = x.1 then x.2 else s.get? k := by
  obtain ⟨f, v⟩ := x
  cases v with
  | some v => exact get?_set s f k v
  | none => exact get?_erase s f k

theorem get?_edit_congr (h : s.get? k = s'.get? k) :
    (s.edit edits).get? k = (s'.edit edits).get? k := by
  induction edits generalizing s s' with
  | nil => exact h
  | cons x edits ih =>
    have hx : (s.edit [x]).get? k = (s'.edit [x]).get? k := by
      rw [get?_edit_cons, get?_edit_cons, h]
    exact ih hx

theorem get?_edit_of_not_mem (h : ∀ x ∈ edits, x.1 ≠ k) : (s.edit edits).get? k = s.get? k := by
  induction edits generalizing s with
  | nil => rfl
  | cons x edits ih =>
    refine (ih (s := s.edit [x]) fun y hy => h y (List.mem_cons_of_mem x hy)).trans ?_
    rw [get?_edit_cons, if_neg (h x List.mem_cons_self).symm]

theorem mergeValue_redactValue (v : Option SettingValue) : mergeValue v (redactValue v) = v := by
  match v with
  | none => rfl
  | some (.json _) => rfl
  | some (.str v) =>
    by_cases hv : v = ""
    · rw [redactValue, if_pos hv]
      rfl
    · rw [redactValue, if_neg hv]
      rfl

/-- A form with edits of fields that are no credentials has just these edits as its effect. -/
theorem merge_redacted_form (stored : Settings) (fs : List String)
    (edits : List (String × Option SettingValue)) (h : ∀ x ∈ edits, x.1 ∉ fs) (k : String) :
    (stored.merge ((stored.redact fs).edit edits) fs).get? k = (stored.edit edits).get? k := by
  rw [get?_merge]
  split
  · next hk =>
    -- a credential: no edit is about it
    have hnot : ∀ x ∈ edits, x.1 ≠ k := by
      rintro x hx rfl
      exact h x hx hk
    rw [get?_edit_of_not_mem hnot, get?_edit_of_not_mem hnot, get?_redact, if_pos hk]
    exact mergeValue_redactValue _
  rename_i hk
  refine get?_edit_congr ?_
  rw [get?_redact, if_neg hk]

theorem merge_redacted_form_key :
    ((⟨[("token", .str "T"), ("zone", .str "a")]⟩ : Settings).merge
      ((redact ⟨[("token", .str "T"), ("zone", .str "a")]⟩ ["token"]).edit [("zone", none)])
      ["token"]).get? "token" = some (.str "T") :=
  (merge_redacted_form ⟨[("token", .str "T"), ("zone", .str "a")]⟩ ["token"] [("zone", none)]
    (by decide) "token").trans (by decide)

/-! ## New credentials -/

/-- Each of the fields `fs` that is sent with a new value has it in the settings. -/
def Applies (incoming settings : Settings) (fs : List String) : Prop :=
  ∀ f ∈ fs, ∀ v, incoming.get? f = some v → v ≠ .str marker → v ≠ .str "" →
    settings.get? f = some v

/-- The fields are sent as strings. -/
def Texts (incoming : Settings) (fs : List String) : Prop :=
  ∀ f ∈ fs, ∀ text, incoming.get? f ≠ some (.json text)

theorem applies_merge_iff (stored incoming : Settings) {sent fs : List String} (hsub : sent ⊆ fs) :
    incoming.Applies (stored.merge incoming fs) sent ↔ incoming.Texts sent := by
  constructor
  · intro h f hf text hv
    have hnew := h f hf _ hv nofun nofun
    rw [get?_merge, if_pos (hsub hf), hv] at hnew
    cases hnew
  intro h f hf v hv hmarker hempty
  rw [get?_merge, if_pos (hsub hf), hv]
  cases v with
  | json text => exact absurd hv (h f hf text)
  | str v =>
    rw [mergeValue, if_neg (hmarker ∘ congrArg _), if_neg (hempty ∘ congrArg _)]

theorem Applies.congr {a b : Settings} (h : ∀ k, a.get? k = b.get? k) :
    incoming.Applies a fs ↔ incoming.Applies b fs :=
  forall₂_congr fun f _ => by rw [h f]

end Settings

/-! ## The services -/

variable {P : Platform} {e : Nat → Env} {s : Database} {subj : Subjects} {id : Id} {n : Nat}
  {i : Env}

theorem yields_found {ρ : Type} {key : ρ → Id} (get : Database → Table key) (p : ρ → Bool) :
    Yields (fun r => key r = id)
      (fetch (Tx.query fun db => found (((get db).get? id).filter p))) := by
  intro i s r hr
  have hget := found_eq_ok.1 (transact_query_ok hr)
  exact (Table.get?_eq_some_iff.1 (Option.filter_eq_some_iff.1 hget).1).2

namespace Issue

theorem nameTaken_ok {m : Sql Unit} {ss ss' : Session Database}
    (h : nameTaken m i ss = (.ok (), ss')) : m i ss = (.ok (), ss') := by
  obtain ⟨r, ss1, hm, h⟩ := Tx.bind_ok.1 h
  have hrun := Tx.attempt_ok.1 hm
  cases r with
  | ok _ =>
    obtain ⟨-, rfl⟩ := Tx.pure_ok.1 h
    exact hrun
  | error err =>
    dsimp only at h
    split at h <;> exact absurd h Tx.fail_ok

theorem get?_updateTx {new : Issuer} {wasDefault : Bool}
    (h : (transact (updateTx P wasDefault new) i s).1 = .ok ()) :
    ∃ row, (transact (updateTx P wasDefault new) i s).2.issuers.get? new.id = some row ∧
      row.settingsSealed = new.settingsSealed := by
  obtain ⟨ss, hrun, hdb⟩ := transact_ok h
  obtain ⟨ss1, hupdate⟩ : ∃ ss1, Sql.updateIssuer P new i ss1 = (.ok (), ss) := by
    unfold updateTx at hrun
    split at hrun
    · obtain ⟨_, ss1, -, hrun⟩ := Tx.bind_ok.1 hrun
      exact ⟨ss1, nameTaken_ok hrun⟩
    · exact ⟨_, nameTaken_ok hrun⟩
  obtain ⟨-, db, hdone, rfl⟩ := Tx.stmt_ok.1 hupdate
  split at hdone
  · cases hdone
  rename_i old hold
  split at hdone
  · cases hdone
  split at hdone
  · cases hdone
  cases hdone
  refine ⟨new.write old, ?_, rfl⟩
  rw [hdb]
  have hget := (Option.filter_eq_some_iff.1 hold).1
  exact Table.get?_update_self (f := new.write) hget fun _ => rfl

theorem yields_sealSettings (hP : Transfer.LawfulSettings P) (settings : Settings) :
    Yields (fun x => SealOf P (adIssuer id) settings x.1) (sealSettings P id settings) := by
  unfold sealSettings
  split
  · exact yields_fail _
  rename_i clear hclear
  refine yields_bind (yields_askExcept fun i blob hblob => sealOf_of_seal hP hclear hblob) ?_
  intro blob hblob
  exact yields_bind_any fun _ => yields_pure hblob

theorem ends_updateIssuer (hP : Transfer.LawfulSettings P) (input : IssuerInput) :
    Ends e (fun _ s' r => r.isOk → ∃ row stored, s'.issuers.get? id = some row ∧
      SealOf P (adIssuer id) (Settings.merge stored input.settings Transfer.issuerSecretFields)
        row.settingsSealed) (updateIssuer P subj id input) n s := by
  refine ends_only_bind (Authz.quiet_check _ _ _ _) (yields_any _) (fun _ _ h => by cases h) ?_
  intro k _ _
  refine ends_only_bind (quiet_fetch (Sql.readOnly_getIssuer _ _))
    (yields_found Database.issuers _) (fun _ _ h => by cases h) fun k row hid => ?_
  refine ends_ite (fun _ h => by cases h) fun _ => ?_
  refine ends_only_bind (only_ofExcept (q := Ev.Quiet) _) (yields_any _)
    (fun _ _ h => by cases h) fun k _ _ => ?_
  refine ends_only_bind (quiet_sealSettings P id _) (yields_sealSettings hP _)
    (fun _ _ h => by cases h) fun k x hx => ?_
  rw [ends_bind, ends_repo]
  split
  · next htx =>
    obtain ⟨row', hget, hsealed⟩ := get?_updateTx htx
    refine ends_still (only_bind (quiet_emit _) fun _ => quiet_getIssuer P subj id) ?_
    exact fun _ _ _ => ⟨row', storedSettings P row, hid ▸ hget, by rw [hsealed]; exact hx⟩
  · exact fun h => by cases h

end Issue

namespace Secrets

theorem get?_updateSecret {r : TenantSecret} (h : (transact (Sql.updateSecret P r) i s).1 = .ok ()) :
    ∃ row, (transact (Sql.updateSecret P r) i s).2.secrets.get? r.id = some row ∧
      row.valueSealed = r.valueSealed := by
  obtain ⟨ss, hrun, hdb⟩ := transact_ok h
  obtain ⟨-, db, hdone, rfl⟩ := Tx.stmt_ok.1 hrun
  split at hdone
  · cases hdone
  rename_i old hold
  split at hdone
  · cases hdone
  split at hdone
  · cases hdone
  cases hdone
  refine ⟨r.write old, ?_, rfl⟩
  rw [hdb]
  have hget := (Option.filter_eq_some_iff.1 hold).1
  exact Table.get?_update_self (f := r.write) hget fun _ => rfl

theorem quiet_sealValue (id : Id) (value : Settings) : Quiet (sealValue P id value) := by
  unfold sealValue
  split
  · exact only_fail _
  · exact quiet_askExcept _

theorem yields_sealValue (hP : Transfer.LawfulSettings P) (value : Settings) :
    Yields (SealOf P (adSecret id) value) (sealValue P id value) := by
  unfold sealValue
  split
  · exact yields_fail _
  rename_i clear hclear
  refine yields_askExcept fun i blob hblob => ?_
  cases hseal : P.envSeal i.nonce clear (adSecret id) with
  | ok b =>
    rw [hseal] at hblob
    cases hblob
    exact sealOf_of_seal hP hclear hseal
  | error err =>
    rw [hseal] at hblob
    cases err <;> cases hblob

theorem ends_update (hP : Transfer.LawfulSettings P) (input : Input) :
    Ends e (fun _ s' r => r.isOk → ∃ row stored, s'.secrets.get? id = some row ∧
      SealOf P (adSecret id) (merged stored input.value) row.valueSealed)
      (update P subj id input) n s := by
  unfold update
  refine ends_ite (fun _ h => by cases h) fun _ => ?_
  refine ends_only_bind (quiet_fetch (Sql.readOnly_query _))
    (yields_found Database.secrets _) (fun _ _ h => by cases h) fun k row hid => ?_
  refine ends_only_bind (only_ofExcept (q := Ev.Quiet) _) (yields_any _)
    (fun _ _ h => by cases h) fun k stored _ => ?_
  refine ends_ite (fun _ h => by cases h) fun _ => ?_
  refine ends_only_bind (quiet_sealValue _ _) (yields_sealValue hP _)
    (fun _ _ h => by cases h) fun k blob hblob => ?_
  rw [ends_bind, write, ends_bind, ends_attempt, ends_repo]
  dsimp only
  split
  · next htx =>
    obtain ⟨row', hget, hsealed⟩ := get?_updateSecret htx
    rw [ends_pure]
    refine ends_still (only_bind (quiet_emit _) fun _ =>
      only_bind (quiet_fetch (Sql.readOnly_query _)) fun _ => only_pure _) ?_
    exact fun _ _ _ => ⟨row', stored, hid ▸ hget, by rw [hsealed, ← hid]; exact hblob⟩
  · exact fun h => by cases h

end Secrets

/-- New credentials take effect, in `Merge` and in the settings that `UpdateIssuer` and a secret's
`Update` leave under seal, just when all that are sent are strings. -/
theorem new_credentials_apply_iff (P : Platform) (hP : Transfer.LawfulSettings P) :
    (∀ (stored incoming : Settings) (fs : List String),
      incoming.Applies (stored.merge incoming fs) fs ↔ incoming.Texts fs) ∧
    (∀ (e : Nat → Env) (s : Database) (subj : Subjects) (id : Id) (input : IssuerInput),
      ((Issue.updateIssuer P subj id input).outcome e s).isOk →
      ∃ row settings, ((Issue.updateIssuer P subj id input).run.exec e 0 s []).1.issuers.get? id =
          some row ∧ Issue.issuerSettings P row = .ok settings ∧
        (input.settings.Applies settings Transfer.issuerSecretFields ↔
          input.settings.Texts Transfer.issuerSecretFields)) ∧
    ∀ (e : Nat → Env) (s : Database) (subj : Subjects) (id : Id) (input : Secrets.Input),
      ((Secrets.update P subj id input).outcome e s).isOk →
      ∃ row value, ((Secrets.update P subj id input).run.exec e 0 s []).1.secrets.get? id =
          some row ∧ Secrets.openValue P row = .ok value ∧
        (input.value.Applies value (input.value.fields.map Prod.fst) ↔
          input.value.Texts (input.value.fields.map Prod.fst)) := by
  refine ⟨fun stored incoming fs => Settings.applies_merge_iff _ _ (List.Subset.refl fs), ?_, ?_⟩
  · intro e s subj id input hok
    obtain ⟨-, h⟩ := (Issue.ends_updateIssuer hP input).exec []
    obtain ⟨row, stored, hget, hseal⟩ := h hok
    rw [← (Table.get?_eq_some_iff.1 hget).2] at hseal
    obtain ⟨settings, hopen, hsame⟩ := hseal.issuerSettings
    refine ⟨row, settings, hget, hopen, ?_⟩
    rw [Settings.Applies.congr hsame]
    exact Settings.applies_merge_iff _ _ (List.Subset.refl _)
  intro e s subj id input hok
  obtain ⟨-, h⟩ := (Secrets.ends_update hP input).exec []
  obtain ⟨row, stored, hget, hseal⟩ := h hok
  rw [← (Table.get?_eq_some_iff.1 hget).2] at hseal
  obtain ⟨value, hopen, hsame⟩ := hseal.openValue
  refine ⟨row, value, hget, hopen, ?_⟩
  rw [Settings.Applies.congr hsame]
  refine Settings.applies_merge_iff _ _ fun f hf => ?_
  exact List.mem_eraseDups.2 (List.mem_append_right _ hf)

theorem new_credentials_apply_token :
    Settings.Applies ⟨[("token", .str "T")]⟩
      (Settings.merge .empty ⟨[("token", .str "T")]⟩ ["token"]) ["token"] := by
  refine ((new_credentials_apply_iff _ Transfer.Sample.lawful_settings).1 _ _ _).2 ?_
  intro f hf text hv
  rw [List.mem_singleton.1 hf] at hv
  cases hv

/-- A nested credential removes the stored one. -/
theorem nested_credential_dropped :
    ¬ ∀ (stored incoming : Settings) (fs : List String),
      incoming.Applies (stored.merge incoming fs) fs := by
  intro h
  have hnew := h ⟨[("dns_credential", .json "1")]⟩ ⟨[("dns_credential", .json "2")]⟩
    ["dns_credential"] "dns_credential" (by decide) (.json "2") rfl nofun nofun
  exact absurd hnew (by decide)

end Lcm
