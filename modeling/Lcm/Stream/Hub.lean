import Lcm.Conc.Machine
import Lcm.Store.Models
import Mathlib.Algebra.Ring.Int.Defs

/-!
# The hub

`stream/hub.go`: a tenant's events are entries of one stream; the tenant's loop reads it and
pushes each entry to the subscriptions it targets, and a client that reconnects with a
Last-Event-ID gets the entries it has missed pushed by `Subscribe` itself. Both push to the
same bounded channel under one high-water mark.

The model follows one subscription from its registration on. An action is one critical section
or one operation on a channel or on the stream, so the actions of `Subscribe`, of the loop, of
the publishers and of the reader interleave in any order. Other subscriptions share the loop
but no data with this one.
-/

namespace Lcm.Stream

/-! ## Stream ids -/

/-- An id of the stream: milliseconds and a sequence number. -/
structure StreamID where
  ms : Int
  seq : Int
deriving DecidableEq

def less (a b : StreamID) : Bool :=
  if a.ms ≠ b.ms then decide (a.ms < b.ms) else decide (a.seq < b.seq)

/-- `strconv.ParseInt(s, 10, 64)`. -/
def parseInt64 (s : List Char) : Option Int :=
  let digits (cs : List Char) : Option Nat :=
    if cs.isEmpty || !cs.all Char.isDigit then none
    else some (cs.foldl (fun n c => n * 10 + (c.toNat - '0'.toNat)) 0)
  let n : Option Int := match s with
    | '-' :: cs => (digits cs).map fun n => -(n : Int)
    | '+' :: cs => (digits cs).map fun n => (n : Int)
    | cs => (digits cs).map fun n => (n : Int)
  n.filter fun n => decide (-(2 ^ 63) ≤ n ∧ n < 2 ^ 63)

/-! `Less` is a strict order. -/

variable {a b : StreamID}

theorem less_iff : less a b = true ↔ a.ms < b.ms ∨ (a.ms = b.ms ∧ a.seq < b.seq) := by
  unfold less
  split <;> simp only [decide_eq_true_eq] <;> omega

theorem less_irrefl (a : StreamID) : ¬ less a a = true := by
  rw [less_iff]
  omega

theorem less_trans {c : StreamID} (hab : less a b = true) (hbc : less b c = true) :
    less a c = true := by
  rw [less_iff] at *
  omega

theorem eq_or_less_of_not_less (h : ¬ less b a = true) : a = b ∨ less a b = true := by
  rw [less_iff] at *
  by_cases hms : a.ms = b.ms
  · by_cases hseq : a.seq = b.seq
    · left
      cases a
      cases b
      simp_all
    · right
      omega
  · right
    omega

def parseID (id : String) : Option StreamID :=
  match id.toList.span (· != '-') with
  | (ms, '-' :: seq) => do return ⟨← parseInt64 ms, ← parseInt64 seq⟩
  | _ => none

/-- The id before all others. -/
def zeroID : StreamID := ⟨0, 0⟩

/-! ## Entries and events -/

/-- An entry of the stream, with the fields the hub reads. -/
structure Entry where
  id : StreamID
  recipients : String
  type : String
  data : String
deriving DecidableEq

/-- A delivered event. A reset has no id. -/
structure Event where
  id : Option StreamID
  type : String
  data : String
deriving DecidableEq

def Entry.event (e : Entry) : Event := ⟨some e.id, e.type, e.data⟩

/-- `strings.Split(s, ",")`. -/
def splitComma : List Char → List (List Char)
  | [] => [[]]
  | ',' :: cs => [] :: splitComma cs
  | c :: cs =>
    match splitComma cs with
    | [] => [[c]]
    | w :: ws => (c :: w) :: ws

def targets (recipients user : String) : Bool :=
  recipients == "*" || (splitComma recipients.toList).contains user.toList

/-- The entries after an id. -/
def after (id : StreamID) (stream : List Entry) : List Entry :=
  stream.filter fun e => less id e.id

/-- `XLast`, with the start of an empty stream. -/
def tailID (stream : List Entry) : StreamID := (stream.getLast?.map Entry.id).getD zeroID

/-! ## The subscription -/

def connBuffer : Nat := 32

structure HubConfig where
  replayWindow : Duration
  streamsPerUser : Nat
  streamsPerTenant : Nat
  maxLen : Nat

/-- How far `Subscribe` has come with its replay. -/
inductive Replay where
  /-- the stream has not been read yet -/
  | waiting
  /-- these entries are left -/
  | pushing (todo : List Entry)
  /-- `push` has passed its critical section and has not sent yet -/
  | sending (e : Entry) (todo : List Entry)
  /-- a reset is to be pushed -/
  | resetting (reason : String)
  /-- the reset has passed the critical section -/
  | sendingReset (reason : String)
deriving DecidableEq

/-- How far the loop has come with this subscription. -/
inductive Live where
  | idle
  /-- `dispatch` has found the subscription among the targets of the entry -/
  | holding (e : Entry)
  /-- `push` has passed its critical section and has not sent yet -/
  | sending (e : Entry)
  /-- `push` has found the channel full -/
  | stalled (e : Entry)
deriving DecidableEq

/-- A tenant's loop: the last id it has taken up, and what is left of the entries it has read. -/
structure Loop where
  last : StreamID
  batch : List Entry
deriving DecidableEq

/-- One subscription, with the stream and the tenant's loop. -/
structure Sub where
  stream : List Entry
  loop : Loop
  live : Live
  replay : Replay
  /-- the high-water mark -/
  last : Option StreamID
  closed : Bool
  /-- everything that has been queued to the channel, oldest first -/
  queued : List Event
  /-- how many of these the reader has taken -/
  taken : Nat
deriving DecidableEq

def resetEvent (reason : String) : Event := ⟨none, "reset", reason⟩

namespace Sub

def hasRoom (s : Sub) : Bool := s.queued.length - s.taken < connBuffer

/-- `push` leaves the entry out: it is not above the high-water mark. -/
def delivered (s : Sub) (e : Entry) : Bool :=
  match s.last with
  | some l => !less l e.id
  | none => false

/-- `Subscribe` has returned. -/
def returned (s : Sub) : Bool := s.replay = .pushing []

end Sub

def unixMilli (ms : Int) : Time := 62135596800 * second + ms * 1000

/-- The id lies inside the replay window. -/
def inWindow (cfg : HubConfig) (now : Time) (id : StreamID) : Bool :=
  decide (now - cfg.replayWindow ≤ unixMilli id.ms)

/-- Where `replay` starts. -/
def startReplay (cfg : HubConfig) (now : Time) (lastID : String) : Replay :=
  if lastID = "" then .pushing []
  else match parseID lastID with
    | none => .resetting "\x7b\"reason\":\"replay_window\"\x7d"
    | some id =>
      if inWindow cfg now id then .waiting else .resetting "\x7b\"reason\":\"replay_window\"\x7d"

/-- `Subscribe`, up to the registration. `loop` is the tenant's loop, if one runs; the counts are
those of the open streams of the user and of the tenant. -/
def subscribe (cfg : HubConfig) (stream : List Entry) (loop : Option Loop)
    (userStreams tenantStreams : Nat) (now : Time) (lastID : String) : Option Sub :=
  if userStreams ≥ cfg.streamsPerUser || tenantStreams ≥ cfg.streamsPerTenant then none
  else some
    { stream
      loop := loop.getD ⟨tailID stream, []⟩
      live := .idle
      replay := startReplay cfg now lastID
      last := none
      closed := false
      queued := []
      taken := 0 }

/-! ## The actions -/

inductive Action where
  /-- `XADD` by a publisher -/
  | publish (e : Entry)
  /-- `XRANGE` of the replay, which may fail -/
  | range (ok : Bool)
  /-- the critical section of a `push` of the replay -/
  | replayPush
  /-- its send -/
  | replaySend
  /-- `XREAD` of the loop -/
  | read
  /-- the critical section of `dispatch` for the next entry -/
  | dispatch
  /-- the critical section of the loop's `push` -/
  | livePush
  /-- its send -/
  | liveSend
  /-- the loop's `Close` of a stalled subscription -/
  | closeStalled
  /-- the reader takes an event -/
  | take
  /-- the client goes away, or the hub is closed -/
  | close
deriving DecidableEq

namespace Sub

/-- One action on the subscription of `user` that asks for the entries after `lastID`. An action
whose turn it is not changes nothing. -/
def step (cfg : HubConfig) (user : String) (lastID : StreamID) (s : Sub) : Action → Sub
  | .publish e =>
    -- Valkey gives out increasing ids
    if less zeroID e.id && s.stream.all (fun o => less o.id e.id) then
      { s with stream := s.stream ++ [e] }
    else s
  | .range ok =>
    match s.replay with
    | .waiting =>
      if ok then { s with replay := .pushing ((after lastID s.stream).take cfg.maxLen) }
      else { s with replay := .resetting "\x7b\"reason\":\"replay_unavailable\"\x7d" }
    | _ => s
  | .replayPush =>
    match s.replay with
    | .pushing (e :: todo) =>
      if !targets e.recipients user || s.closed || s.delivered e then { s with replay := .pushing todo }
      else { s with last := some e.id, replay := .sending e todo }
    | .resetting reason =>
      if s.closed then { s with replay := .pushing [] }
      else { s with replay := .sendingReset reason }
    | _ => s
  | .replaySend =>
    -- the result of `push` is not looked at
    match s.replay with
    | .sending e todo =>
      if !s.closed && s.hasRoom then
        { s with queued := s.queued ++ [e.event], replay := .pushing todo }
      else { s with replay := .pushing todo }
    | .sendingReset reason =>
      if !s.closed && s.hasRoom then
        { s with queued := s.queued ++ [resetEvent reason], replay := .pushing [] }
      else { s with replay := .pushing [] }
    | _ => s
  | .read =>
    if s.loop.batch = [] && s.live = .idle then
      { s with loop := { s.loop with batch := (after s.loop.last s.stream).take 100 } }
    else s
  | .dispatch =>
    match s.live, s.loop.batch with
    | .idle, e :: batch =>
      { s with
        loop := ⟨e.id, batch⟩
        live := if !s.closed && targets e.recipients user then .holding e else .idle }
    | _, _ => s
  | .livePush =>
    match s.live with
    | .holding e =>
      if s.closed || s.delivered e then { s with live := .idle }
      else { s with last := some e.id, live := .sending e }
    | _ => s
  | .liveSend =>
    match s.live with
    | .sending e =>
      if s.closed then { s with live := .idle }
      else if s.hasRoom then { s with queued := s.queued ++ [e.event], live := .idle }
      else { s with live := .stalled e }
    | _ => s
  | .closeStalled =>
    match s.live with
    | .stalled _ => { s with closed := true, live := .idle }
    | _ => s
  | .take =>
    if s.returned && decide (s.taken < s.queued.length) then { s with taken := s.taken + 1 } else s
  | .close => { s with closed := true }

end Sub

end Lcm.Stream
