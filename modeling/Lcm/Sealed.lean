import Lcm.Net.Text

/-!
# Sealed values

A value at rest is an envelope: its own data key, wrapped under the key-encryption key, and the
value under the data key, both bound to the associated data of the row they belong to. Over a
cipher that opens only what was sealed with it, an envelope opens only as a whole and only where
it was sealed.
-/

namespace Lcm.Sealed

open List

open Net (Bytes encode)

/-! ## Authenticated ciphers -/

/-- A plaintext that was sealed, under a key and a nonce and with associated data. -/
structure Entry where
  key : Bytes
  nonce : Bytes
  plain : Bytes
  ad : Bytes
  deriving DecidableEq

/-- An ideal authenticated cipher: it has a log of what was sealed, and a ciphertext is that of
one plaintext and its associated data. -/
structure Aead where
  sealing : Entry → Bytes
  length_sealing : ∀ x, (sealing x).length = x.plain.length + 16
  log : List Entry
  unique : ∀ x ∈ log, ∀ y ∈ log,
    x.key = y.key → x.nonce = y.nonce → sealing x = sealing y → x = y

/-- It opens what was sealed, with the associated data, and nothing else. -/
def Aead.opening (A : Aead) (key nonce cipher ad : Bytes) : Option Bytes :=
  (A.log.find? fun x => x.key == key && x.nonce == nonce && x.ad == ad &&
    A.sealing x == cipher).map Entry.plain

theorem Aead.opening_eq_some_iff {A : Aead} {k n c ad p : Bytes} :
    A.opening k n c ad = some p ↔ ⟨k, n, p, ad⟩ ∈ A.log ∧ A.sealing ⟨k, n, p, ad⟩ = c := by
  rw [opening, Option.map_eq_some_iff]
  constructor
  · rintro ⟨x, hfind, rfl⟩
    have hx := find?_some hfind
    simp only [Bool.and_eq_true, beq_iff_eq] at hx
    obtain ⟨⟨⟨rfl, rfl⟩, rfl⟩, rfl⟩ := hx
    exact ⟨mem_of_find?_eq_some hfind, rfl⟩
  rintro ⟨hmem, rfl⟩
  obtain ⟨x, hfind⟩ := Option.isSome_iff_exists.1
    (find?_isSome.2 ⟨_, hmem, by simp⟩ : (A.log.find? fun x => x.key == k &&
      x.nonce == n && x.ad == ad && A.sealing x == A.sealing ⟨k, n, p, ad⟩).isSome)
  have hx := find?_some hfind
  simp only [Bool.and_eq_true, beq_iff_eq] at hx
  obtain ⟨⟨⟨hk, hn⟩, -⟩, hc⟩ := hx
  have heq := A.unique x (mem_of_find?_eq_some hfind) _ hmem hk hn hc
  exact ⟨x, hfind, congrArg Entry.plain heq⟩

/-! ## The envelope -/

def maxSettingsBytes : Nat := 8192

inductive Err where
  | tooLarge | tampered | random
  deriving DecidableEq

/-- What `Seal` reads from the random source: a data key and two nonces. -/
structure Draw where
  dek : Bytes
  n1 : Bytes
  n2 : Bytes
  length_dek : dek.length = 32
  length_n1 : n1.length = 12
  length_n2 : n2.length = 12

/-- An envelope: the cipher and the key-encryption key. -/
structure Envelope where
  aead : Aead
  kek : Bytes

/-- `Seal`; the random source may fail. -/
def Envelope.seal (e : Envelope) (drawn : Option Draw) (plaintext ad : Bytes) :
    Except Err Bytes :=
  if plaintext.length > maxSettingsBytes then .error .tooLarge
  else match drawn with
    | none => .error .random
    | some d => .ok (d.n1 ++ e.aead.sealing ⟨e.kek, d.n1, d.dek, ad⟩ ++ d.n2 ++
        e.aead.sealing ⟨d.dek, d.n2, plaintext, ad⟩)

def Envelope.open (e : Envelope) (blob ad : Bytes) : Except Err Bytes :=
  if blob.length < 12 + 48 + 12 + 16 then .error .tampered
  else match e.aead.opening e.kek (blob.take 12) ((blob.drop 12).take 48) ad with
    | none => .error .tampered
    | some dek =>
      let rest := blob.drop 60
      match e.aead.opening dek (rest.take 12) (rest.drop 12) ad with
      | none => .error .tampered
      | some p => .ok p

/-- The associated data of a row: a word for its kind before its id. -/
def adOf (kind : String) (id : Bytes) : Bytes := encode kind ++ id

def adCA : Bytes → Bytes := adOf "ca:"

def adIssuer : Bytes → Bytes := adOf "issuer:"

def adSecret : Bytes → Bytes := adOf "secret:"

def adWebhook : Bytes → Bytes := adOf "webhook:"

def adCertKey : Bytes → Bytes := adOf "certkey:"

def adTarget : Bytes → Bytes := adOf "target:"

/-- The kinds of rows with sealed values. -/
inductive Kind where
  | ca | issuer | secret | webhook | certKey | target
  deriving DecidableEq

def Kind.ad : Kind → Bytes → Bytes
  | .ca => adCA
  | .issuer => adIssuer
  | .secret => adSecret
  | .webhook => adWebhook
  | .certKey => adCertKey
  | .target => adTarget

def Kind.word : Kind → String
  | .ca => "ca:"
  | .issuer => "issuer:"
  | .secret => "secret:"
  | .webhook => "webhook:"
  | .certKey => "certkey:"
  | .target => "target:"

theorem Kind.ad_eq (k : Kind) (id : Bytes) : k.ad id = encode k.word ++ id := by
  cases k <;> rfl

theorem Kind.ad_inj {k k' : Kind} {i i' : Bytes} (h : k.ad i = k'.ad i') : k = k' ∧ i = i' := by
  rw [ad_eq, ad_eq] at h
  -- the first two bytes tell the kinds apart
  have htake : ∀ k : Kind, ∀ i, (encode k.word ++ i).take 2 = (encode k.word).take 2 :=
    fun k i => take_append_of_le_length (by cases k <;> decide)
  have hstart := congrArg (List.take 2) h
  rw [htake, htake] at hstart
  have hk : k = k' := by
    revert hstart
    cases k <;> cases k' <;> first | exact fun _ => rfl | decide
  subst hk
  exact ⟨rfl, append_cancel_left h⟩

/-! ## The values sealed so far -/

/-- A call of `Seal` that returned a blob. -/
structure Call where
  draw : Draw
  plain : Bytes
  ad : Bytes
  fits : plain.length ≤ maxSettingsBytes

namespace Envelope

variable (e : Envelope)

/-- What the call had the cipher seal: its data key, and its value. -/
def wrap (c : Call) : Entry := ⟨e.kek, c.draw.n1, c.draw.dek, c.ad⟩

def value (c : Call) : Entry := ⟨c.draw.dek, c.draw.n2, c.plain, c.ad⟩

/-- The nonce and the wrapped data key, of 60 bytes. -/
def header (c : Call) : Bytes := c.draw.n1 ++ e.aead.sealing (e.wrap c)

def blob (c : Call) : Bytes := e.header c ++ c.draw.n2 ++ e.aead.sealing (value c)

/-- The cipher was used for the calls, and the data key of each is fresh. -/
structure Sound (calls : List Call) : Prop where
  log_eq : e.aead.log = calls.flatMap fun c => [e.wrap c, value c]
  fresh : ∀ c ∈ calls, ∀ d ∈ calls, c.draw.dek = d.draw.dek → c = d
  apart : ∀ c ∈ calls, c.draw.dek ≠ e.kek

variable {e} {calls : List Call} {c d : Call} {b ad p : Bytes}

theorem open_eq_ok_iff : e.open b ad = .ok p ↔ 88 ≤ b.length ∧ ∃ dek,
    e.aead.opening e.kek (b.take 12) ((b.drop 12).take 48) ad = some dek ∧
      e.aead.opening dek ((b.drop 60).take 12) ((b.drop 60).drop 12) ad = some p := by
  constructor
  · intro h
    unfold Envelope.open at h
    split at h
    · cases h
    rename_i hlen
    split at h
    · cases h
    rename_i dek hdek
    dsimp only at h
    split at h
    · cases h
    rename_i hval
    cases h
    exact ⟨Nat.not_lt.1 hlen, dek, hdek, hval⟩
  · rintro ⟨hlen, dek, hdek, hval⟩
    rw [Envelope.open, if_neg (Nat.not_lt.2 hlen), hdek]
    dsimp only
    rw [hval]

theorem open_eq_tampered (h : ∀ p, e.open b ad ≠ .ok p) : e.open b ad = .error .tampered := by
  revert h
  unfold Envelope.open
  split
  · exact fun _ => rfl
  split
  · exact fun _ => rfl
  dsimp only
  split
  · exact fun _ => rfl
  · exact fun h => absurd rfl (h _)

theorem length_header (c : Call) : (e.header c).length = 60 := by
  rw [header, length_append, c.draw.length_n1, e.aead.length_sealing, wrap,
    c.draw.length_dek]

namespace Sound

variable (h : e.Sound calls)
include h

theorem mem_log_iff {x : Entry} :
    x ∈ e.aead.log ↔ ∃ c ∈ calls, x = e.wrap c ∨ x = value c := by
  simp [h.log_eq]

theorem call_of_open (hopen : e.open b ad = .ok p) :
    ∃ c ∈ calls, e.blob c = b ∧ c.ad = ad ∧ c.plain = p := by
  obtain ⟨-, dek, hdek, hval⟩ := open_eq_ok_iff.1 hopen
  obtain ⟨hmem, hwrap⟩ := Aead.opening_eq_some_iff.1 hdek
  obtain ⟨c, hc, hentry | hentry⟩ := h.mem_log_iff.1 hmem
  · obtain ⟨-, hn1, rfl, rfl⟩ := Entry.mk.inj hentry
    obtain ⟨hmem, hct⟩ := Aead.opening_eq_some_iff.1 hval
    obtain ⟨d, hd, hentry' | hentry'⟩ := h.mem_log_iff.1 hmem
    · exact absurd (Entry.mk.inj hentry').1 (h.apart c hc)
    · -- the value is under the data key of the same call
      obtain rfl := h.fresh c hc d hd (Entry.mk.inj hentry').1
      refine ⟨c, hc, ?_, rfl, (Entry.mk.inj hentry').2.2.1.symm⟩
      have hrest : b.drop 60 = (b.drop 12).drop 48 := by rw [drop_drop]
      calc e.blob c
        _ = b.take 12 ++ (b.drop 12).take 48 ++ (b.drop 60).take 12 ++ (b.drop 60).drop 12 := by
          rw [blob, header, ← hn1, ← (Entry.mk.inj hentry').2.1, ← hentry, hwrap, ← hentry', hct]
        _ = b := by
          rw [append_assoc, take_append_drop, hrest, append_assoc,
            take_append_drop, take_append_drop]
  · exact absurd (Entry.mk.inj hentry).1.symm (h.apart c hc)

theorem open_blob (hc : c ∈ calls) : e.open (e.blob c) c.ad = .ok c.plain := by
  have hrest : (e.blob c).drop 60 = c.draw.n2 ++ e.aead.sealing (value c) := by
    rw [blob, append_assoc, drop_left' (length_header c)]
  have hn1 : (e.blob c).take 12 = c.draw.n1 := by
    simp [blob, header, c.draw.length_n1]
  have hwrap : ((e.blob c).drop 12).take 48 = e.aead.sealing (e.wrap c) := by
    simp [blob, header, wrap, c.draw.length_n1, e.aead.length_sealing, c.draw.length_dek]
  refine open_eq_ok_iff.2 ⟨?_, c.draw.dek, ?_, ?_⟩
  · simp only [blob, length_append, length_header, c.draw.length_n2, e.aead.length_sealing]
    omega
  · rw [hn1, hwrap]
    exact Aead.opening_eq_some_iff.2 ⟨h.mem_log_iff.2 ⟨c, hc, .inl rfl⟩, rfl⟩
  · rw [hrest, take_left' c.draw.length_n2, drop_left' c.draw.length_n2]
    exact Aead.opening_eq_some_iff.2 ⟨h.mem_log_iff.2 ⟨c, hc, .inr rfl⟩, rfl⟩

theorem call_eq_of_prefix (hc : c ∈ calls) (hd : d ∈ calls) (hpre : e.blob d <+: e.blob c) :
    d = c := by
  have hhead : ∀ x, e.header x <+: e.blob x := fun x => by
    rw [blob, append_assoc]
    exact prefix_append ..
  have hlen : (e.header d).length = (e.header c).length := by rw [length_header, length_header]
  have heq : e.header d = e.header c :=
    (prefix_of_prefix_length_le ((hhead d).trans hpre) (hhead c) hlen.le).eq_of_length hlen
  obtain ⟨hn, hwrap⟩ := append_inj heq (d.draw.length_n1.trans c.draw.length_n1.symm)
  have hentry := e.aead.unique _ (h.mem_log_iff.2 ⟨d, hd, .inl rfl⟩) _
    (h.mem_log_iff.2 ⟨c, hc, .inl rfl⟩) rfl hn hwrap
  exact h.fresh d hd c hc (congrArg Entry.plain hentry)

end Sound

/-- A blob opens to its value where it was sealed and nowhere else, and neither a part of it nor
a splice of two opens at all, unless `Seal` has returned just that for a third value. -/
theorem opens_only_where_sealed (e : Envelope) (calls : List Call) (h : e.Sound calls) :
    ∀ c ∈ calls, e.seal (some c.draw) c.plain c.ad = .ok (e.blob c) ∧
      (∀ (k : Kind) (i : Bytes), c.ad = k.ad i →
        e.open (e.blob c) (k.ad i) = .ok c.plain ∧
        ∀ (k' : Kind) (i' : Bytes), (k', i') ≠ (k, i) →
          e.open (e.blob c) (k'.ad i') = .error .tampered) ∧
      (∀ n < (e.blob c).length, ∀ ad, e.open ((e.blob c).take n) ad = .error .tampered) ∧
      ∀ d ∈ calls, ∀ i j : Nat, ∀ s, s = (e.blob c).take i ++ (e.blob d).drop j →
        s ≠ e.blob c → s ≠ e.blob d → (∀ x ∈ calls, s = e.blob x → x = c ∨ x = d) →
          ∀ ad, e.open s ad = .error .tampered := by
  intro c hc
  refine ⟨if_neg (Nat.not_lt.2 c.fits), fun k i had => ⟨had ▸ h.open_blob hc, fun k' i' hne => ?_⟩,
    fun n hn ad => ?_, fun d hd i j s _ hsc hsd hthird ad => ?_⟩
  · refine open_eq_tampered fun p hp => hne ?_
    obtain ⟨x, hx, hblob, hxad, -⟩ := h.call_of_open hp
    obtain rfl := h.call_eq_of_prefix hc hx (hblob ▸ prefix_rfl)
    obtain ⟨rfl, rfl⟩ := Kind.ad_inj (hxad.symm.trans had)
    rfl
  · refine open_eq_tampered fun p hp => ?_
    obtain ⟨x, hx, hblob, -⟩ := h.call_of_open hp
    obtain rfl := h.call_eq_of_prefix hc hx (hblob ▸ take_prefix ..)
    have hlen := congrArg List.length hblob
    rw [length_take] at hlen
    omega
  refine open_eq_tampered fun p hp => ?_
  obtain ⟨x, hx, hblob, -⟩ := h.call_of_open hp
  obtain rfl | rfl := hthird x hx hblob.symm
  · exact hsc hblob.symm
  · exact hsd hblob.symm

/-- A call for a CA, and an envelope whose cipher marks a plaintext with zeros. -/
def sampleCall : Call :=
  ⟨⟨List.replicate 32 1, List.replicate 12 1, List.replicate 12 2, rfl, rfl, rfl⟩, [7],
    Kind.ca.ad [], by decide⟩

def sampleEnvelope : Envelope where
  kek := []
  aead := {
    sealing := fun x => x.plain ++ List.replicate 16 0
    length_sealing := fun x => by simp
    log := [⟨[], sampleCall.draw.n1, sampleCall.draw.dek, sampleCall.ad⟩, value sampleCall]
    unique := by decide }

theorem opens_only_where_sealed_sample :
    sampleEnvelope.open (sampleEnvelope.blob sampleCall) (Kind.ca.ad []) = .ok [7] ∧
      sampleEnvelope.open (sampleEnvelope.blob sampleCall) (Kind.issuer.ad []) =
        .error .tampered := by
  have hsound : sampleEnvelope.Sound [sampleCall] :=
    ⟨rfl, by simp, fun c hc => by rw [mem_singleton.1 hc]; decide⟩
  obtain ⟨-, hopen, -⟩ :=
    opens_only_where_sealed sampleEnvelope [sampleCall] hsound sampleCall mem_cons_self
  exact ⟨(hopen .ca [] rfl).1, (hopen .ca [] rfl).2 .issuer [] (by decide)⟩

end Envelope

end Lcm.Sealed
