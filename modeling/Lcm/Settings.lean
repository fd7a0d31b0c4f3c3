import Mathlib.Data.List.Basic

/-!
# Settings with credential fields

`sealed.go`: the JSON object that holds an issuer's configuration and credentials, and what
clients see of it. The functions tell strings from other values only, so a value that is not a
string is kept as its JSON text.
-/

namespace Lcm

inductive SettingValue where
  | str (s : String)
  | json (text : String)
deriving DecidableEq

/-- A settings object, as the list of its fields. -/
structure Settings where
  fields : List (String × SettingValue)
deriving DecidableEq

namespace Settings

/-- No fields. -/
def empty : Settings := ⟨[]⟩

def get? (s : Settings) (k : String) : Option SettingValue :=
  (s.fields.find? fun f => f.1 == k).map Prod.snd

/-- `asString(s[k])`. -/
def str (s : Settings) (k : String) : String :=
  match s.get? k with
  | some (.str v) => v
  | _ => ""

/-- `delete(s, k)`. -/
def erase (s : Settings) (k : String) : Settings := ⟨s.fields.filter fun f => f.1 != k⟩

/-- `s[k] = v`. -/
def set (s : Settings) (k : String) (v : SettingValue) : Settings :=
  if (s.get? k).isSome then ⟨s.fields.map fun f => if f.1 == k then (k, v) else f⟩
  else ⟨s.fields ++ [(k, v)]⟩

/-- The fields of `b` put over those of `a`. -/
def overlay (a b : Settings) : Settings := b.fields.foldl (fun s f => s.set f.1 f.2) a

def marker : String := "__set__"

/-- `Redact`: what clients may see. -/
def redact (s : Settings) (secretFields : List String) : Settings :=
  secretFields.foldl (fun out f =>
    match out.get? f with
    | none => out
    | some (.str "") => out.erase f
    | some (.str _) => out.set f (.str marker)
    | some (.json _) => out.erase f) s

/-- `Public`: the fields that are not secret. -/
def publicPart (s : Settings) (secretFields : List String) : Settings :=
  secretFields.foldl erase s

/-- `Merge`: a credential that is left out or sent as the marker keeps its stored value, one
sent empty is removed. -/
def merge (stored incoming : Settings) (secretFields : List String) : Settings :=
  secretFields.foldl (fun out f =>
    let kept := match stored.get? f with
      | some old => out.set f old
      | none => out.erase f
    match incoming.get? f with
    | none => kept
    | some (.str v) => if v = marker then kept else if v = "" then out.erase f else out
    | some (.json _) => out.erase f) incoming

/-- `onlyFields`: the credential fields that are present and not empty. -/
def onlyFields (s : Settings) (secretFields : List String) : Settings :=
  secretFields.foldl (fun out f =>
    match s.get? f with
    | none => out
    | some (.str "") => out
    | some v => out.set f v) empty

/-! ## Field by field -/

theorem get?_erase (s : Settings) (f k : String) :
    (s.erase f).get? k = if k = f then none else s.get? k := by
  unfold get? erase
  rw [List.find?_filter]
  split
  · next hk =>
    subst hk
    rw [List.find?_eq_none.2 fun x _ => by simp, Option.map_none]
  rename_i hk
  congr 2
  funext x
  by_cases hx : x.1 = k
  · simp [hx, hk]
  · simp [hx]

theorem get?_set (s : Settings) (f k : String) (v : SettingValue) :
    (s.set f v).get? k = if k = f then some v else s.get? k := by
  have hmap : ∀ fields : List (String × SettingValue),
      ((fields.map fun x => if x.1 == f then (f, v) else x).find? fun x => x.1 == k) =
        (fields.find? fun x => x.1 == k).map fun x => if x.1 == f then (f, v) else x := by
    intro fields
    rw [List.find?_map]
    congr 2
    funext x
    by_cases hx : x.1 = f
    · simp [hx]
    · simp [hx]
  unfold set
  split
  · next hin =>
    unfold get? at hin ⊢
    rw [hmap, Option.map_map]
    cases hfind : s.fields.find? fun x => x.1 == k with
    | none =>
      split
      · next hk =>
        subst hk
        rw [hfind] at hin
        cases hin
      · rfl
    | some x =>
      have hx : x.1 = k := by simpa using List.find?_some hfind
      by_cases hk : k = f
      · simp [hx, hk]
      · simp [hx, hk]
  · next hnot =>
    unfold get? at hnot ⊢
    rw [List.find?_append]
    by_cases hk : k = f
    · subst hk
      rw [Bool.not_eq_true, Option.isSome_eq_false_iff, Option.isNone_iff_eq_none,
        Option.map_eq_none_iff] at hnot
      simp [hnot]
    · have hne : ¬ f = k := fun h => hk h.symm
      simp [hk, hne]

theorem get?_foldl {step : Settings → String → Settings}
    {g : String → Option SettingValue → Option SettingValue}
    (hstep : ∀ out f k, (step out f).get? k = if k = f then g f (out.get? f) else out.get? k)
    (hidem : ∀ f v, g f (g f v) = g f v) (fs : List String) (out : Settings) (k : String) :
    (fs.foldl step out).get? k = if k ∈ fs then g k (out.get? k) else out.get? k := by
  induction fs generalizing out with
  | nil => rfl
  | cons f fs ih =>
    rw [List.foldl_cons, ih, hstep]
    by_cases hf : k = f
    · subst hf
      by_cases hk : k ∈ fs
      · simp [hk, hidem]
      · simp [hk]
    · simp [hf]

/-- What clients may see of a credential field. -/
def redactValue : Option SettingValue → Option SettingValue
  | none => none
  | some (.str v) => if v = "" then none else some (.str marker)
  | some (.json _) => none

theorem get?_redact (s : Settings) (fs : List String) (k : String) :
    (s.redact fs).get? k = if k ∈ fs then redactValue (s.get? k) else s.get? k := by
  refine get?_foldl (g := fun _ => redactValue) ?_ ?_ fs s k
  · intro out f k
    split
    · next hnone =>
      rw [hnone]
      split
      · next hk => rw [hk, hnone, redactValue]
      · rfl
    · next hempty => rw [get?_erase, hempty, redactValue, if_pos rfl]
    · next v hv hset => rw [get?_set, hset, redactValue, if_neg hv]
    · next v hjson => rw [get?_erase, hjson, redactValue]
  · intro f v
    match v with
    | none => rfl
    | some (.str v) => by_cases hv : v = "" <;> simp [redactValue, hv, marker]
    | some (.json _) => rfl

theorem get?_publicPart (s : Settings) (fs : List String) (k : String) :
    (s.publicPart fs).get? k = if k ∈ fs then none else s.get? k :=
  get?_foldl (g := fun _ _ => none) (fun out f k => get?_erase out f k) (fun _ _ => rfl) fs s k

/-- What becomes of a credential field that was stored and is sent again. -/
def mergeValue (old : Option SettingValue) : Option SettingValue → Option SettingValue
  | none => old
  | some (.str v) => if v = marker then old else if v = "" then none else some (.str v)
  | some (.json _) => none

theorem get?_merge (stored incoming : Settings) (fs : List String) (k : String) :
    (stored.merge incoming fs).get? k =
      if k ∈ fs then mergeValue (stored.get? k) (incoming.get? k) else incoming.get? k := by
  -- what the loop makes of the field it finds
  let g : String → Option SettingValue → Option SettingValue := fun f v =>
    match incoming.get? f with
    | none => stored.get? f
    | some (.str w) => if w = marker then stored.get? f else if w = "" then none else v
    | some (.json _) => none
  have hkept : ∀ (out : Settings) (f k : String),
      (match stored.get? f with
        | some old => out.set f old
        | none => out.erase f).get? k = if k = f then stored.get? f else out.get? k := by
    intro out f k
    split
    · next old hold => rw [get?_set, hold]
    · next hnone => rw [get?_erase, hnone]
  have hfold : (stored.merge incoming fs).get? k =
      if k ∈ fs then g k (incoming.get? k) else incoming.get? k := by
    refine get?_foldl (g := g) ?_ ?_ fs incoming k
    · intro out f k
      dsimp only [g]
      cases hin : incoming.get? f with
      | none => exact hkept out f k
      | some v =>
        cases v with
        | str w =>
          dsimp only
          split
          · exact hkept out f k
          split
          · exact get?_erase out f k
          split
          · next hk => rw [hk]
          · rfl
        | json t => exact get?_erase out f k
    · intro f v
      dsimp only [g]
      cases incoming.get? f with
      | none => rfl
      | some w =>
        cases w with
        | str w =>
          dsimp only
          split
          · rfl
          · split <;> rfl
        | json t => rfl
  rw [hfold]
  split
  · dsimp only [g]
    cases incoming.get? k with
    | none => rfl
    | some v => cases v <;> rfl
  · rfl

theorem length_eq_zero_iff (s : Settings) : s.fields.length = 0 ↔ ∀ k, s.get? k = none := by
  rw [List.length_eq_zero_iff]
  constructor
  · intro h k
    unfold get?
    rw [h]
    rfl
  intro h
  cases hf : s.fields with
  | nil => rfl
  | cons x rest =>
    have hx := h x.1
    unfold get? at hx
    rw [hf] at hx
    simp at hx

end Settings

end Lcm
