import Lcm.Conc.Machine
import Lcm.Store.Models

/-!
# The audit writer

`audit/audit.go`: `Record` queues a row to a bounded channel under the writer's lock, and one
goroutine moves the rows to a buffer and writes the buffer to the store: when it is full, at
every tick, for a `Flush` and at the end. An action is one critical section, one operation on a
channel or one call of the store, and the actions of any number of callers and of the goroutine
interleave in any order.

1. **Model layer**: `validate`, `Writer`, `Writer.step`.
2. **Safety**: `Writer.Kept`: store, buffer and channel together hold what was accepted, in order.
3. `closed_all_stored`: in every run in which a `Close` that finds the writer closed comes when
   the goroutine has returned, a `Close` returns only when all that was accepted is stored.
4. `close_before_stored`: a second `Close` that comes earlier returns while rows are queued.
-/

namespace Lcm.Audit

open Conc List

/-! ## Events -/

/-- The vocabulary. -/
def known : List String :=
  ["issuer_created", "issuer_updated", "issuer_deleted", "ca_generated", "bundle_rotated",
    "certificate_requested", "request_approved", "request_rejected", "certificate_issued",
    "certificate_renewed", "certificate_imported", "certificate_revoked", "certificate_deleted",
    "certificate_deployed", "certificate_installed", "secret_created", "secret_updated",
    "secret_rotated", "secret_deleted", "webhook_created", "webhook_updated", "webhook_deleted",
    "grant_created", "grant_revoked", "access_refused", "backup_exported",
    "backup_exported_with_credentials", "backup_imported", "stream_opened", "stream_refused",
    "enrollment_issued", "enrollment_refused"]

def actorKinds : List String := ["user", "service", "system"]

def subjectKinds : List String :=
  ["certificate", "issuer", "request", "job", "secret", "grant", "webhook", "bundle", "backup",
    "system"]

def outcomes : List String := ["ok", "refused", "failed"]

/-- One record before persistence; `δ` is the type of the details. -/
structure Event (δ : Type) where
  tenantID : String
  eventType : String
  actorKind : String
  actorID : String
  subjectKind : String
  subjectID : String
  subjectName : String
  outcome : String
  reason : String
  correlationID : String
  details : δ

structure AuditRow where
  ts : Time
  tenantID : String
  eventType : String
  actorKind : String
  actorID : String
  subjectKind : String
  subjectID : String
  subjectName : String
  outcome : String
  reason : String
  correlationID : String
  details : String
deriving DecidableEq

inductive RecordError where
  | unknownEventType (type : String)
  | tenantRequired
  | actorKind (kind : String)
  | subjectKind (kind : String)
  | outcome (outcome : String)
  | writerClosed
deriving DecidableEq

def validate {δ : Type} (e : Event δ) : Except RecordError Unit :=
  if !known.contains e.eventType then .error (.unknownEventType e.eventType)
  else if e.tenantID = "" then .error .tenantRequired
  else if !actorKinds.contains e.actorKind then .error (.actorKind e.actorKind)
  else if !subjectKinds.contains e.subjectKind then .error (.subjectKind e.subjectKind)
  else if !outcomes.contains e.outcome then .error (.outcome e.outcome)
  else .ok ()

/-- The row of an event; `guardDetails` gives the JSON of its details. -/
def rowOf {δ : Type} (guardDetails : δ → String) (now : Time) (e : Event δ) : AuditRow where
  ts := now
  tenantID := e.tenantID
  eventType := e.eventType
  actorKind := e.actorKind
  actorID := e.actorID
  subjectKind := e.subjectKind
  subjectID := e.subjectID
  subjectName := e.subjectName
  outcome := e.outcome
  reason := e.reason
  correlationID := e.correlationID
  details := guardDetails e.details

/-! ## The writer -/

/-- What the goroutine does when the buffer is written. -/
inductive Next where
  | select
  /-- `close(done)`, and then as before -/
  | answer
  | stop
deriving DecidableEq

/-- Where the goroutine is. -/
inductive Phase where
  | selecting
  /-- it has taken a flush request and empties the channel -/
  | draining
  /-- `InsertAuditRows` is called -/
  | inserting (next : Next)
  | returned
deriving DecidableEq

/-- A call of `Record` that took the lock: its row, its result, and whether it was counted in
`dropped`. -/
structure Call where
  row : AuditRow
  result : Except RecordError Unit
  counted : Bool

/-- The call returned nil and was not counted in `dropped`. -/
def Call.accepted (c : Call) : Bool := c.result.isOk && !c.counted

/-- The writer with its goroutine and the store. -/
structure Writer where
  /-- what is queued in the channel -/
  ch : List AuditRow
  closed : Bool
  dropped : Nat
  buf : List AuditRow
  phase : Phase
  /-- the rows of the store -/
  stored : List AuditRow
  /-- the calls of `Record`, in the order in which they took the lock -/
  calls : List Call
  /-- the calls of `Flush` that offer a request -/
  offering : Nat
  /-- the answered requests -/
  answered : Nat
  /-- the calls of `Close` that wait for the goroutine -/
  waiting : Nat
  /-- the calls of `Close` that have returned -/
  closers : Nat

/-- `newWriter` and `start`. -/
def Writer.new : Writer := ⟨[], false, 0, [], .selecting, [], [], 0, 0, 0, 0⟩

def batchSize : Nat := 200

inductive Action (δ : Type) where
  /-- `Record` at a time -/
  | record (e : Event δ) (now : Time)
  /-- the critical section of `Flush` -/
  | flush
  /-- the context of a `Flush` is done while it offers its request -/
  | giveUp
  /-- `Close` takes the lock -/
  | close
  /-- `wg.Wait` of a `Close` returns -/
  | closeReturns
  /-- the goroutine's select takes a row, or finds the channel closed -/
  | receive
  /-- it takes the tick -/
  | tick
  /-- it takes a flush request -/
  | takeFlush
  /-- one round of the loop that empties the channel -/
  | drain
  /-- `InsertAuditRows` returns -/
  | insert

namespace Writer

variable {δ : Type} (guardDetails : δ → String) (queue : Nat)

/-- The critical section of `Record`. -/
def record (w : Writer) (row : AuditRow) : Writer :=
  if w.closed then
    { w with
      dropped := w.dropped + 1
      calls := w.calls ++ [⟨row, .error .writerClosed, true⟩] }
  else if w.ch.length < queue then
    { w with ch := w.ch ++ [row], calls := w.calls ++ [⟨row, .ok (), false⟩] }
  else { w with dropped := w.dropped + 1, calls := w.calls ++ [⟨row, .ok (), true⟩] }

/-- The goroutine goes on after a flush. -/
def go (w : Writer) : Next → Writer
  | .select => { w with phase := .selecting }
  | .answer => { w with phase := .selecting, answered := w.answered + 1 }
  | .stop => { w with phase := .returned }

/-- `flush`, which does nothing when the buffer is empty. -/
def startFlush (w : Writer) (next : Next) : Writer :=
  if w.buf = [] then w.go next else { w with phase := .inserting next }

/-- One action. An action whose turn it is not changes nothing. -/
def step (w : Writer) : Action δ → Writer
  | .record e now =>
    -- an invalid event does not come to the lock
    match validate e with
    | .error _ => w
    | .ok () => w.record queue (rowOf guardDetails now e)
  | .flush => if w.closed then w else { w with offering := w.offering + 1 }
  | .giveUp => { w with offering := w.offering - 1 }
  | .close =>
    if w.closed then { w with closers := w.closers + 1 }
    else { w with closed := true, waiting := w.waiting + 1 }
  | .closeReturns =>
    if w.phase = .returned && decide (0 < w.waiting) then
      { w with waiting := w.waiting - 1, closers := w.closers + 1 }
    else w
  | .receive =>
    if w.phase = .selecting then
      match w.ch with
      | row :: ch =>
        let w' := { w with ch, buf := w.buf ++ [row] }
        if w'.buf.length ≥ batchSize then w'.startFlush .select else w'
      | [] => if w.closed then w.startFlush .stop else w
    else w
  | .tick => if w.phase = .selecting then w.startFlush .select else w
  | .takeFlush =>
    if w.phase = .selecting && decide (0 < w.offering) then
      { w with phase := .draining, offering := w.offering - 1 }
    else w
  | .drain =>
    if w.phase = .draining then
      match w.ch with
      | row :: ch => { w with ch, buf := w.buf ++ [row] }
      | [] => w.startFlush .answer
    else w
  | .insert =>
    -- the buffer is reused once the store has the rows
    match w.phase with
    | .inserting next => { w with stored := w.stored ++ w.buf, buf := [] }.go next
    | _ => w

/-- The rows of the calls of `Record` that returned nil and were not counted in `dropped`. -/
def accepted (w : Writer) : List AuditRow := (w.calls.filter Call.accepted).map Call.row

/-! ## Safety -/

section Safety

variable {guardDetails queue} {w : Writer} {a : Action δ}

/-- Nothing comes to the channel any more and nothing is left in it. -/
def Drained (w : Writer) : Prop := w.closed = true ∧ w.ch = []

/-- What holds of the writer in every state. -/
structure Kept (w : Writer) : Prop where
  rows : w.stored ++ w.buf ++ w.ch = w.accepted
  stopping : w.phase = .inserting .stop → w.Drained
  returned : w.phase = .returned → w.Drained ∧ w.buf = []

/-- The condition on an action: a `Close` that finds the writer closed comes when the goroutine has
returned. -/
def ClosesLate (w : Writer) : Action δ → Prop
  | .close => w.closed = true → w.phase = .returned
  | _ => True

instance (w : Writer) (a : Action δ) : Decidable (w.ClosesLate a) := by
  cases a <;> unfold ClosesLate <;> infer_instance

theorem accepted_concat {w' : Writer} {c : Call} (hcalls : w'.calls = w.calls ++ [c]) :
    w'.accepted = w.accepted ++ if c.accepted then [c.row] else [] := by
  unfold accepted
  rw [hcalls, filter_append, map_append, filter_singleton]
  cases c.accepted <;> rfl

theorem Kept.rows_moved {row : AuditRow} {ch : List AuditRow} (hw : w.Kept) (hch : w.ch = row :: ch) :
    w.stored ++ (w.buf ++ [row]) ++ ch = w.accepted := by
  rw [← hw.rows, hch]
  simp

theorem Kept.record (hw : w.Kept) (row : AuditRow) : (w.record queue row).Kept := by
  unfold Writer.record
  split
  · refine ⟨?_, hw.stopping, hw.returned⟩
    rw [accepted_concat rfl, ← hw.rows]
    exact (append_nil _).symm
  rename_i hopen
  -- the goroutine has not seen the channel closed
  have hnot : ¬ w.Drained := fun hd => hopen hd.1
  split
  · refine ⟨?_, fun hs => absurd (hw.stopping hs) hnot, fun hr => absurd (hw.returned hr).1 hnot⟩
    rw [accepted_concat rfl, ← hw.rows]
    exact (append_assoc ..).symm
  refine ⟨?_, hw.stopping, hw.returned⟩
  rw [accepted_concat rfl, ← hw.rows]
  exact (append_nil _).symm

theorem kept_go {next : Next} (hrows : w.stored ++ w.buf ++ w.ch = w.accepted) (hbuf : w.buf = [])
    (hstop : next = .stop → w.Drained) : (w.go next).Kept := by
  cases next with
  | select | answer => exact ⟨hrows, nofun, nofun⟩
  | stop => exact ⟨hrows, nofun, fun _ => ⟨hstop rfl, hbuf⟩⟩

theorem kept_startFlush {next : Next} (hrows : w.stored ++ w.buf ++ w.ch = w.accepted)
    (hstop : next = .stop → w.Drained) : (w.startFlush next).Kept := by
  unfold startFlush
  split
  · next hbuf => exact kept_go hrows hbuf hstop
  · refine ⟨hrows, fun hphase => hstop ?_, nofun⟩
    injection hphase

theorem kept_step (hw : w.Kept) (a : Action δ) : (w.step guardDetails queue a).Kept := by
  cases a with
  | record e now =>
    simp only [step]
    split
    · exact hw
    · exact hw.record _
  | flush =>
    simp only [step]
    split
    · exact hw
    · exact ⟨hw.rows, hw.stopping, hw.returned⟩
  | giveUp => exact ⟨hw.rows, hw.stopping, hw.returned⟩
  | close =>
    simp only [step]
    split
    · exact ⟨hw.rows, hw.stopping, hw.returned⟩
    · refine ⟨hw.rows, fun hs => ⟨rfl, (hw.stopping hs).2⟩, fun hr => ?_⟩
      exact ⟨⟨rfl, (hw.returned hr).1.2⟩, (hw.returned hr).2⟩
  | closeReturns =>
    simp only [step]
    split
    · exact ⟨hw.rows, hw.stopping, hw.returned⟩
    · exact hw
  | receive =>
    simp only [step]
    split
    · next hphase =>
      split
      · next row ch hch =>
        have hrows := hw.rows_moved hch
        split
        · exact kept_startFlush hrows nofun
        · exact ⟨hrows, fun hs => by simp [hphase] at hs, fun hr => by simp [hphase] at hr⟩
      rename_i hch
      split
      · next hclosed => exact kept_startFlush hw.rows fun _ => ⟨hclosed, hch⟩
      · exact hw
    · exact hw
  | tick =>
    simp only [step]
    split
    · exact kept_startFlush hw.rows nofun
    · exact hw
  | takeFlush =>
    simp only [step]
    split
    · exact ⟨hw.rows, nofun, nofun⟩
    · exact hw
  | drain =>
    simp only [step]
    split
    · next hphase =>
      split
      · next row ch hch =>
        have hrows := hw.rows_moved hch
        exact ⟨hrows, fun hs => by simp [hphase] at hs, fun hr => by simp [hphase] at hr⟩
      · exact kept_startFlush hw.rows nofun
    · exact hw
  | insert =>
    simp only [step]
    split
    · next next hphase =>
      refine kept_go ?_ rfl fun hstop => ?_
      · exact (congrArg (· ++ w.ch) (append_nil _)).trans hw.rows
      · exact hw.stopping (hstop ▸ hphase)
    · exact hw

/-- A `Close` has returned only when the goroutine has. -/
def ClosersLate (w : Writer) : Prop := 0 < w.closers → w.phase = .returned

theorem go_closers (w : Writer) (next : Next) : (w.go next).closers = w.closers := by
  cases next <;> rfl

theorem startFlush_closers (w : Writer) (next : Next) : (w.startFlush next).closers = w.closers := by
  unfold startFlush
  split
  · exact go_closers w next
  · rfl

theorem ClosersLate.of_running {w' : Writer} (hw : w.ClosersLate) (hphase : w.phase ≠ .returned)
    (hclosers : w'.closers = w.closers) : w'.ClosersLate := by
  intro hpos
  rw [hclosers] at hpos
  exact absurd (hw hpos) hphase

theorem closersLate_step (hlate : w.ClosesLate a) (hw : w.ClosersLate) :
    (w.step guardDetails queue a).ClosersLate := by
  cases a with
  | record e now =>
    simp only [step]
    split
    · exact hw
    unfold Writer.record
    split
    · exact hw
    · split <;> exact hw
  | flush =>
    simp only [step]
    split <;> exact hw
  | giveUp => exact hw
  | close =>
    simp only [step]
    split
    · next hclosed => exact fun _ => hlate hclosed
    · exact hw
  | closeReturns =>
    simp only [step]
    split
    · next hturn =>
      simp only [Bool.and_eq_true, decide_eq_true_eq] at hturn
      exact fun _ => hturn.1
    · exact hw
  | receive =>
    simp only [step]
    split
    · next hphase =>
      refine hw.of_running (by simp [hphase]) ?_
      split
      · split
        · exact startFlush_closers _ _
        · rfl
      split
      · exact startFlush_closers _ _
      · rfl
    · exact hw
  | tick =>
    simp only [step]
    split
    · next hphase => exact hw.of_running (by simp [hphase]) (startFlush_closers _ _)
    · exact hw
  | takeFlush =>
    simp only [step]
    split
    · next hturn =>
      simp only [Bool.and_eq_true, decide_eq_true_eq] at hturn
      exact hw.of_running (by simp [hturn.1]) rfl
    · exact hw
  | drain =>
    simp only [step]
    split
    · next hphase =>
      refine hw.of_running (by simp [hphase]) ?_
      split
      · rfl
      · exact startFlush_closers _ _
    · exact hw
  | insert =>
    simp only [step]
    split
    · next hphase => exact hw.of_running (by simp [hphase]) (go_closers _ _)
    · exact hw

end Safety

/-- Once a `Close` has returned, the store holds the rows of exactly the accepted calls, in the
order in which they took the lock, in every run in which a `Close` that finds the writer closed
comes when the goroutine has returned. -/
theorem closed_all_stored (as : List (Action δ))
    (hlate : Machine.Meets (step guardDetails queue) ClosesLate new as) :
    let w := Machine.run (step guardDetails queue) new as
    0 < w.closers → w.stored = w.accepted := by
  intro w hclosers
  have hw : w.Kept ∧ w.ClosersLate := Machine.run_inv (I := fun w => w.Kept ∧ w.ClosersLate)
    (fun w a hlate hw => ⟨kept_step hw.1 a, closersLate_step hlate hw.2⟩) ⟨⟨rfl, nofun, nofun⟩, nofun⟩ hlate
  obtain ⟨⟨-, hch⟩, hbuf⟩ := hw.1.returned (hw.2 hclosers)
  have hrows := hw.1.rows
  rw [hch, hbuf, append_nil, append_nil] at hrows
  exact hrows

def sampleEvent (subject : String) : Event Unit :=
  ⟨"t1", "issuer_created", "service", "lcm", "issuer", subject, "", "ok", "", "", ()⟩

/-- Two rows, written when the writer is closed. -/
def closedOnce : List (Action Unit) :=
  [.record (sampleEvent "i1") 1, .record (sampleEvent "i2") 2, .close, .receive, .tick, .insert,
    .receive, .receive, .insert, .closeReturns]

theorem closed_all_stored_once :
    let w := Machine.run (step (fun _ : Unit => "{}") 10000) new closedOnce
    0 < w.closers ∧ w.stored.length = 2 ∧ w.stored = w.accepted :=
  ⟨by decide, by decide,
    closed_all_stored _ _ closedOnce (by decide) (by decide)⟩

/-- The second `Close` finds the writer closed and returns, and the row is queued still. -/
theorem close_before_stored :
    ¬ ∀ (δ : Type) (guardDetails : δ → String) (queue : Nat) (as : List (Action δ)),
      let w := Machine.run (step guardDetails queue) new as
      0 < w.closers → w.stored = w.accepted := by
  intro h
  have hlost := h Unit (fun _ => "{}") 10000 [.record (sampleEvent "i1") 1, .close, .close]
  revert hlost
  decide

end Writer

end Lcm.Audit
