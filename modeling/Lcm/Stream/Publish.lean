import Lcm.Stream.Hub
import Lcm.Verify
import Mathlib.Data.List.Basic

/-!
# Publishing

`PublishID` of `stream/hub.go` stores an event for a list of users or for everyone; the
recipients are one field of the entry, joined by commas, with a star for everyone. Modules
publish through `EventsServer.Publish`, which keeps the reserved types from them; the service's
own lifecycle events come from `hubPublisher` of `app/adapters.go`.

* `addressed_iff`: an accepted event reaches just the users it is for, unless it is for the one
  user `*`.
* `kept_apart_iff`: a module's event has a type of its own just when the type does not begin
  with `certificate.`.
-/

namespace Lcm.Stream

open List

/-! ## Types -/

def maxPayload : Nat := 16 * 1024

def maxTargets : Nat := 1000

/-- `typeRE`: `^[a-z][a-z0-9._-]{0,63}$`. -/
def typeRE (typ : String) : Bool :=
  match typ.toList with
  | [] => false
  | c :: cs =>
    c.isLower && cs.all (fun c => c.isLower || c.isDigit || c == '.' || c == '_' || c == '-') &&
      decide (cs.length ≤ 63)

/-- `Reserved`: types only the service itself publishes. -/
def reserved : List String := ["issued", "renewed", "revoked", "reset", "bye"]

inductive PublishError where
  /-- `ErrType` -/
  | type
  /-- `ErrReserved` -/
  | reserved
  /-- `ErrTargets` -/
  | targets
  /-- `ErrPayload` -/
  | payload
  /-- an error of the stream's client -/
  | client (text : String)
  /-- an error of `caller` -/
  | caller (e : Verify.CallerError)
deriving DecidableEq

def validateType (typ : String) (fromModule : Bool) : Except PublishError Unit :=
  if !typeRE typ then .error .type
  else if fromModule && reserved.contains typ then .error .reserved
  else .ok ()

/-! ## Payloads -/

/-- The fields of the event of a certificate; the time is left out when it is zero. -/
def certificateFields (certificateID spiffeID : String) (notAfter : Option String) :
    List (String × String) :=
  [("certificate_id", certificateID), ("spiffe_id", spiffeID)] ++
    (notAfter.map fun t => ("not_after", t)).toList

/-- `encoding/json`, as far as payloads need it. -/
structure Json where
  /-- `json.Valid` -/
  valid : String → Bool
  /-- `json.Marshal` of a map -/
  marshal : List (String × String) → Option String
  /-- the fields of a certificate are encoded in one line -/
  marshal_certificate : ∃ text, marshal (certificateFields "" "" none) = some text ∧
    valid text = true ∧ text.utf8ByteSize ≤ maxPayload ∧
    (text.toList.any fun c => c == '\n' || c == '\r') = false

/-- The data a caller of `PublishID` hands over. -/
inductive Payload where
  | absent
  | raw (text : String)
  | fields (m : List (String × String))
deriving DecidableEq

variable (J : Json)

def Payload.text : Payload → Except PublishError String
  | absent => .ok "\x7b\x7d"
  | raw text => .ok text
  | fields m =>
    match J.marshal m with
    | none => .error .payload
    | some text => .ok text

/-- The text is a payload: short, valid JSON on one line. -/
def acceptable (text : String) : Bool :=
  decide (text.utf8ByteSize ≤ maxPayload) && J.valid text &&
    !(text.toList.any fun c => c == '\n' || c == '\r')

/-! ## Recipients -/

/-- An id that can be a recipient: not empty, and without a comma, a blank or a line break. -/
def isRecipient (u : String) : Bool :=
  u != "" && !(u.toList.any fun c => c == ',' || c == ' ' || c == '\n')

/-- `strings.Join(to, ",")`. -/
def joinComma (users : List String) : String :=
  String.ofList ([','].intercalate (users.map String.toList))

def recipients (users : List String) (all : Bool) : Except PublishError String :=
  if all then .ok "*"
  else if users.all isRecipient then .ok (joinComma users)
  else .error .targets

/-- `PublishID`; `xadd` is the answer of the stream's client to `XADD`. -/
def publishID (xadd : Except PublishError StreamID) (users : List String) (all : Bool)
    (typ : String) (data : Payload) (fromModule : Bool) : Except PublishError Entry := do
  validateType typ fromModule
  if all = !users.isEmpty || users.length > maxTargets then .error .targets
  else
    let raw ← data.text J
    if !acceptable J raw then .error .payload
    else
      let target ← recipients users all
      let id ← xadd
      .ok ⟨id, target, typ, raw⟩

/-! ## Publishers -/

/-- `PublishRequest`; the tenant is `none` when the field does not hold a UUID. -/
structure PublishRequest where
  tenantID : Option Id
  userIDs : List String
  all : Bool
  type : String
  data : String
deriving DecidableEq

def publish (xadd : Except PublishError StreamID) (peer : Option String) (req : PublishRequest) :
    Except PublishError Entry :=
  match Verify.caller peer req.tenantID with
  | .error e => .error (.caller e)
  | .ok _ =>
    let data := if req.data = "" then .absent else .raw req.data
    publishID J xadd req.userIDs req.all req.type data true

/-- `hubPublisher.Publish`, as far as the stream is concerned. -/
def publishLifecycle (xadd : Except PublishError StreamID)
    (eventType certificateID spiffeID : String) (notAfter : Option String) :
    Except PublishError Entry :=
  publishID J xadd [] true ("certificate." ++ eventType)
    (.fields (certificateFields certificateID spiffeID notAfter)) false

/-- `hubPublisher.PublishFailed`, as far as the stream is concerned. -/
def publishFailed (xadd : Except PublishError StreamID) (detail : List (String × String)) :
    Except PublishError Entry :=
  publishID J xadd [] true "certificate.failed" (.fields detail) false

/-- The types of the events that a stream carries without an entry: the reset of a replay and
the end of a connection. -/
def controlTypes : List String := [(resetEvent "").type, "bye"]

/-! ## What has been accepted -/

variable {J} {xadd : Except PublishError StreamID} {users : List String} {all : Bool}
  {typ : String} {data : Payload} {fromModule : Bool}

theorem validateType_ok (h : validateType typ fromModule = .ok ()) :
    typeRE typ = true ∧ (fromModule = true → typ ∉ reserved) := by
  unfold validateType at h
  split at h
  · cases h
  rename_i hre
  split at h
  · cases h
  rename_i hres
  refine ⟨by simpa using hre, fun hm => ?_⟩
  simpa [hm] using hres

theorem recipients_ok {target : String} (h : recipients users all = .ok target) :
    (all = true ∧ target = "*") ∨
      (all = false ∧ (∀ u ∈ users, isRecipient u = true) ∧ target = joinComma users) := by
  unfold recipients at h
  split at h
  · next hall =>
    cases h
    exact .inl ⟨hall, rfl⟩
  rename_i hall
  split at h
  · next hus =>
    cases h
    exact .inr ⟨by simpa using hall, all_eq_true.1 hus, rfl⟩
  · cases h

theorem publishID_ok {e : Entry}
    (h : publishID J xadd users all typ data fromModule = .ok e) :
    validateType typ fromModule = .ok () ∧ (all = true ↔ users = []) ∧
      recipients users all = .ok e.recipients ∧ e.type = typ := by
  unfold publishID at h
  obtain ⟨⟨⟩, hval, h⟩ := bind_eq_ok.1 h
  split at h
  · cases h
  rename_i htargets
  obtain ⟨raw, -, h⟩ := bind_eq_ok.1 h
  split at h
  · cases h
  obtain ⟨target, htarget, h⟩ := bind_eq_ok.1 h
  obtain ⟨id, -, h⟩ := bind_eq_ok.1 h
  cases h
  refine ⟨hval, ?_, htarget, rfl⟩
  simp only [Bool.or_eq_true, decide_eq_true_eq, not_or] at htargets
  cases all <;> cases users <;> simp_all

/-! ## Addressed delivery -/

theorem splitComma_eq (cs : List Char) : splitComma cs = cs.splitOn ',' := by
  induction cs with
  | nil => rfl
  | cons c cs ih =>
    rw [List.splitOn, splitOnP_cons_eq_if_modifyHead, ← List.splitOn, ← ih]
    by_cases hc : c = ','
    · subst hc
      rfl
    rw [if_neg (by simpa using hc), splitComma.eq_3 c cs hc]
    cases hw : splitComma cs with
    | nil => exact absurd (ih.symm.trans hw) (splitOn_ne_nil _ _)
    | cons w ws => rfl

theorem split_joinComma (hne : users ≠ []) (hus : ∀ u ∈ users, isRecipient u = true) :
    splitComma (joinComma users).toList = users.map String.toList := by
  unfold joinComma
  rw [splitComma_eq, String.toList_ofList]
  refine splitOn_intercalate ',' ?_ (by simpa using hne)
  intro w hw hcomma
  obtain ⟨u, hu, rfl⟩ := mem_map.1 hw
  have hclean := hus u hu
  simp only [isRecipient, Bool.and_eq_true, Bool.not_eq_true', any_eq_false] at hclean
  exact hclean.2 ',' hcomma (by decide)

/-- The entry is for just the users it was published to. -/
def Reaches (users : List String) (all : Bool) (e : Entry) : Prop :=
  ∀ u, targets e.recipients u = true ↔ all = true ∨ u ∈ users

theorem targets_joinComma (hne : users ≠ []) (hus : ∀ u ∈ users, isRecipient u = true)
    (u : String) : targets (joinComma users) u = true ↔ joinComma users = "*" ∨ u ∈ users := by
  unfold targets
  rw [split_joinComma hne hus, Bool.or_eq_true, beq_iff_eq, contains_iff_mem,
    mem_map_of_injective fun _ _ => String.toList_inj.1]

theorem joinComma_eq_star (hne : users ≠ []) (hus : ∀ u ∈ users, isRecipient u = true) :
    joinComma users = "*" ↔ users = ["*"] := by
  constructor
  · intro hstar
    have hsplit := split_joinComma hne hus
    rw [hstar] at hsplit
    have hmap : ["*"].map String.toList = users.map String.toList := hsplit
    exact (map_injective_iff.2 (fun _ _ => String.toList_inj.1) hmap).symm
  · rintro rfl
    rfl

/-- An accepted event reaches just the users it is for, unless it is for the one user `*`. -/
theorem addressed_iff (J : Json) (xadd : Except PublishError StreamID) (users : List String)
    (all : Bool) (typ : String) (data : Payload) (fromModule : Bool) (e : Entry)
    (h : publishID J xadd users all typ data fromModule = .ok e) :
    Reaches users all e ↔ users ≠ ["*"] := by
  obtain ⟨-, hall, hrec, -⟩ := publishID_ok h
  unfold Reaches
  rcases recipients_ok hrec with ⟨hbroad, hto⟩ | ⟨hlist, hus, hto⟩
  · -- everyone: the list is empty
    have husers : users = [] := hall.1 hbroad
    rw [hto, husers]
    refine iff_of_true (fun u => iff_of_true rfl (.inl hbroad)) ?_
    exact (cons_ne_nil "*" []).symm
  have hne : users ≠ [] := fun hnil => Bool.false_ne_true (hlist.symm.trans (hall.2 hnil))
  rw [hto]
  simp only [targets_joinComma hne hus, hlist, Bool.false_eq_true, false_or]
  rw [joinComma_eq_star hne hus]
  constructor
  · -- the empty text is no user, but the star would reach it
    rintro hreach rfl
    have hempty := (hreach "").1 (.inl rfl)
    exact absurd hempty (by decide)
  · intro hstar u
    exact or_iff_right hstar

namespace Sample

/-- A JSON library to which every text is valid. -/
def json : Json where
  valid := fun _ => true
  marshal := fun _ => some "\x7b\x7d"
  marshal_certificate := ⟨"\x7b\x7d", rfl, rfl, by decide, by decide⟩

end Sample

/-- An event for two users reaches both and nobody else. -/
theorem addressed_two : Reaches ["ann", "bob"] false ⟨⟨7, 1⟩, "ann,bob", "note", "\x7b\x7d"⟩ :=
  (addressed_iff Sample.json (.ok ⟨7, 1⟩) ["ann", "bob"] false "note" .absent true _
    (by decide)).2 (by decide)

/-- An event for the user `*` reaches everyone. -/
theorem star_reaches_everyone :
    ¬ ∀ (J : Json) (xadd : Except PublishError StreamID) (users : List String) (all : Bool)
      (typ : String) (data : Payload) (fromModule : Bool) (e : Entry),
      publishID J xadd users all typ data fromModule = .ok e → Reaches users all e := by
  intro h
  have hreach := h Sample.json (.ok ⟨7, 1⟩) ["*"] false "note" .absent true
    ⟨⟨7, 1⟩, "*", "note", "\x7b\x7d"⟩ (by decide)
  exact absurd ((hreach "bob").1 (by decide)) (by decide)

/-! ## Types that are the service's own -/

/-- The service stores events of this type itself, or a stream carries it as a control event. -/
def ServiceType (J : Json) (typ : String) : Prop :=
  (∃ xadd eventType certificateID spiffeID notAfter e,
    publishLifecycle J xadd eventType certificateID spiffeID notAfter = .ok e ∧ e.type = typ) ∨
  (∃ xadd detail e, publishFailed J xadd detail = .ok e ∧ e.type = typ) ∨ typ ∈ controlTypes

/-- The type begins like those of the lifecycle events. -/
def LikeLifecycle (typ : String) : Prop := "certificate.".toList <+: typ.toList

instance (typ : String) : Decidable (LikeLifecycle typ) :=
  inferInstanceAs (Decidable ("certificate.".toList <+: typ.toList))

theorem likeLifecycle_append (eventType : String) :
    LikeLifecycle ("certificate." ++ eventType) := by
  unfold LikeLifecycle
  rw [String.toList_append]
  exact prefix_append _ _

theorem serviceType_of_likeLifecycle (hlike : LikeLifecycle typ) (hre : typeRE typ = true) :
    ServiceType J typ := by
  obtain ⟨rest, hrest⟩ := hlike
  have htyp : "certificate." ++ String.ofList rest = typ := by
    rw [← String.toList_inj, String.toList_append, String.toList_ofList (l := rest)]
    exact hrest
  obtain ⟨text, hmarshal, hvalid, hsize, hline⟩ := J.marshal_certificate
  refine .inl ⟨.ok zeroID, String.ofList rest, "", "", none, ⟨zeroID, "*", typ, text⟩, ?_, rfl⟩
  unfold publishLifecycle publishID
  have hval : validateType typ false = .ok () := by simp [validateType, hre]
  have hacc : acceptable J text = true := by simp [acceptable, hvalid, hsize, hline]
  rw [htyp, hval]
  simp only [Payload.text, hmarshal]
  show (if (!acceptable J text) = true then Except.error PublishError.payload else _) = _
  rw [hacc]
  rfl

/-- An accepted event of a module has a type of its own just when the type does not begin with
`certificate.`. -/
theorem kept_apart_iff (J : Json) (xadd : Except PublishError StreamID) (peer : Option String)
    (req : PublishRequest) (e : Entry) (h : publish J xadd peer req = .ok e) :
    (∀ typ, ServiceType J typ → e.type ≠ typ) ↔ ¬ LikeLifecycle req.type := by
  unfold publish at h
  split at h
  · cases h
  obtain ⟨hval, -, -, htype⟩ := publishID_ok h
  obtain ⟨hre, hres⟩ := validateType_ok hval
  rw [htype]
  constructor
  · intro hapart hlike
    exact hapart req.type (serviceType_of_likeLifecycle hlike hre) rfl
  rintro hnot typ (⟨_, eventType, _, _, _, o, ho, htyp⟩ | ⟨_, _, o, ho, htyp⟩ | hcontrol) heq
  · -- a lifecycle event
    obtain ⟨-, -, -, hot⟩ := publishID_ok ho
    rw [heq, ← htyp, hot] at hnot
    exact hnot (likeLifecycle_append eventType)
  · -- a failure
    obtain ⟨-, -, -, hot⟩ := publishID_ok ho
    rw [heq, ← htyp, hot] at hnot
    exact hnot (by decide)
  · -- a control event: its type is reserved
    have hreserved : ∀ t ∈ controlTypes, t ∈ reserved := by decide
    exact hres rfl (heq ▸ hreserved typ hcontrol)

namespace Sample

/-- A module announces something to everyone. -/
def announcement (typ : String) : PublishRequest := ⟨some 1, [], true, typ, ""⟩

end Sample

/-- A module's own event is told apart from those of the service. -/
theorem kept_apart_note :
    publish Sample.json (.ok ⟨7, 1⟩) (some "spiffe://td/m") (Sample.announcement "note")
        = .ok ⟨⟨7, 1⟩, "*", "note", "\x7b\x7d"⟩ ∧
      ∀ typ, ServiceType Sample.json typ → "note" ≠ typ :=
  ⟨by decide, (kept_apart_iff Sample.json (.ok ⟨7, 1⟩) (some "spiffe://td/m")
    (Sample.announcement "note") ⟨⟨7, 1⟩, "*", "note", "\x7b\x7d"⟩ (by decide)).2 (by decide)⟩

/-- A module can announce that a certificate was issued. -/
theorem module_forges_lifecycle :
    ¬ ∀ (J : Json) (xadd : Except PublishError StreamID) (peer : Option String)
      (req : PublishRequest) (e : Entry), publish J xadd peer req = .ok e →
        ∀ typ, ServiceType J typ → e.type ≠ typ := by
  intro h
  have hapart := h Sample.json (.ok ⟨7, 1⟩) (some "spiffe://td/m")
    (Sample.announcement "certificate.issued")
    ⟨⟨7, 1⟩, "*", "certificate.issued", "\x7b\x7d"⟩ (by decide)
  refine hapart "certificate.issued" (.inl ⟨.ok ⟨8, 1⟩, "issued", "4", "spiffe://td/a", none,
    ⟨⟨8, 1⟩, "*", "certificate.issued", "\x7b\x7d"⟩, ?_, rfl⟩) rfl
  decide

end Lcm.Stream
