/-
How a schedule fires: redbeat's entries, the `run_scheduled_job`
messages they publish, and the workers that run them, on top of the
system of `Orchestrator/Replays.lean`.

# The entry and the row

`_register_redbeat` and `_remove_redbeat` write Redis while the
transaction of their caller is open, and swallow their own failures; the
transaction may commit afterwards or not. So the two stores change in
steps of their own: `register` and `unregister` are the writes to an
entry, of whichever operation, and the operations of the inner system
are the commits. An entry is periodic: it publishes until it is removed.

# A delivery

`_run_scheduled_job` reads its row (`check`), calls the handler
(`handle`), and commits what it has fired (`finish`). The handlers that
call a service run as the actor of the same number in the inner system,
so their transactions are the ones of that system. The transaction of a
reminder that wakes nobody is the task's own, and its commit expires the
row as well.

A task that raises (`fail`) is acknowledged, one that crashes is not.
What `mark_fired` writes is read by nothing and left out.
-/
import LegalBot.Orchestrator.Replays

namespace LegalBot.Firing

open Relational (HasKey Table)

-- ================================================================ handlers

/-- What a handler is about to do once it has read its payload. -/
inductive Call where
  | answer  -- an error result, or an exception, with nothing written
  | reject  -- its `INSERT` raises
  | reminder (sessionId : Uuid) (message : String) (wake : Bool)
      (payload : Json)
  | replay (sessionId fromRunId : Uuid) (fromStep extraContext : String)
  | poll (mailboxId : Uuid)
  deriving DecidableEq

/-- `uuid.UUID(v)`, on the text that `str` gives of an id: a numeral. -/
def parseUuid : Json → Option Uuid
  | .str s =>
      if s.toList = [] then none
      else
        s.toList.foldlM (fun n c =>
          if c.isDigit then some (n * 10 + (c.toNat - '0'.toNat))
          else none) 0
  | _ => none

/-- `job.payload or {}`; `none`: no dictionary, and `get` raises. -/
def payloadMembers (payload : Json) : Option (List (String × Json)) :=
  match payload with
  | .obj members => some members
  | other => if other.truthy then none else some []

/-- `payload.get(k)`. -/
def payloadGet (members : List (String × Json)) (k : String) : Json :=
  (Json.getMember members k).getD .null

/-- A value where the service takes a `str`. -/
def asText : Json → Option String
  | .str s => some s
  | _ => none

/-- `handle_reminder`. -/
def handleReminderCall (payload : Json) : Call :=
  match payloadMembers payload with
  | none => .answer
  | some members =>
      match parseUuid (payloadGet members "session_id") with
      | none => .answer  -- missing, or `uuid.UUID` raises
      | some sid =>
          let message := payloadGet members "message"
          let wake := (payloadGet members "wake_agent").truthy
          if message.truthy then
            match asText message with
            | some text => .reminder sid text wake (.obj members)
            | none => .reject
          else .reminder sid "Reminder" wake (.obj members)

/-- `handle_replay_trigger`. -/
def handleReplayTriggerCall (payload : Json) : Call :=
  match payloadMembers payload with
  | none => .answer
  | some members =>
      let context := payloadGet members "extra_context"
      match parseUuid (payloadGet members "session_id"),
        parseUuid (payloadGet members "from_run_id"),
        asText (payloadGet members "from_step") with
      | some sid, some rid, some step =>
          if step = "" then .answer
          else .replay sid rid step ((asText context).getD "")
      | _, _, _ => .answer

/-- `handle_poll_mailbox_once`. -/
def handlePollMailboxOnceCall (payload : Json) : Call :=
  match payloadMembers payload with
  | none => .answer
  | some members =>
      match parseUuid (payloadGet members "mailbox_id") with
      | some mailboxId => .poll mailboxId
      | none => .answer

/-- The handler that `JOB_KIND_REGISTRY` has for the row's kind. -/
def handlerCall (row : ScheduledJob) : Call :=
  if row.kind = "reminder" then handleReminderCall row.payload
  else if row.kind = "replay_trigger" then
    handleReplayTriggerCall row.payload
  else handlePollMailboxOnceCall row.payload

-- ================================================================== states

/-- The program points of `_run_scheduled_job`. -/
inductive Point where
  | idle
  | received (id : Uuid)
  | checked (row : ScheduledJob)
  | polling (row : ScheduledJob) (mailboxId : Uuid)
  | calling (row : ScheduledJob) (done : Bool)
  deriving DecidableEq

/-- A worker: its program point and the message it will acknowledge. -/
structure Fire where
  point : Point
  message : Option Nat
  deriving DecidableEq

def Fire.idle : Fire := ⟨.idle, none⟩

/-- The row a worker has found active and is firing. -/
def Point.row : Point → Option ScheduledJob
  | .idle | .received _ => none
  | .checked row | .polling row _ | .calling row _ => some row

/-- What the fires of a row have done. -/
inductive Event where
  | started (id : Uuid)
  | effect (id : Uuid)
  deriving DecidableEq

/-- The state of the system; `log` is ghost, newest event first. -/
structure State where
  inner : Replays.State
  entries : Finset Uuid
  sent : List Uuid
  acked : Finset Nat
  polls : List Uuid
  fires : Nat → Fire
  log : List Event

/-- The empty deployment. -/
def State.init : State :=
  { inner := .init, entries := ∅, sent := [], acked := ∅, polls := []
    fires := fun _ => .idle, log := [] }

abbrev State.schedules (s : State) : Table ScheduledJob :=
  s.inner.schedules

/-- What may happen next. -/
inductive Action where
  | inner (a : Replays.Action)
  | register (id : Uuid)
  | unregister (id : Uuid)
  | beat (id : Uuid)
  | deliver (tid mid : Nat)
  | check (tid : Nat)
  | handle (tid : Nat)
  | publishPoll (tid : Nat) (raised : Bool)
  | finish (tid : Nat)
  | fail (tid : Nat)
  | crash (tid : Nat)

-- =================================================================== steps

/-- Move a worker on. -/
def State.goto (s : State) (tid : Nat) (point : Point) : State :=
  { s with
    fires := Function.update s.fires tid
      ⟨point, (s.fires tid).message⟩ }

/-- The task of a worker is over; its message is acknowledged. -/
def State.ends (s : State) (tid : Nat) : State :=
  { s with
    fires := Function.update s.fires tid .idle
    acked := match (s.fires tid).message with
      | some mid => insert mid s.acked
      | none => s.acked }

/-- `expire_one_shot` when the row is a one-shot. -/
def expireFired (schedules : Table ScheduledJob) (row : ScheduledJob) :
    Table ScheduledJob :=
  if row.scheduleKind = .oneShot then expireOneShot schedules row.id
  else schedules

/-- The commit of a task. -/
def State.fired (s : State) (tid : Nat) (row : ScheduledJob) : State :=
  { s with
    inner := { s.inner with
      schedules := expireFired s.schedules row } }.ends tid

/-- A worker whose own actor is not in a call of its handler. -/
def State.resting (s : State) (tid : Nat) : Bool :=
  (s.fires tid).point = .idle

/-- Reminders are posted by fires alone, and an actor that fires does
nothing else. -/
def State.admits (s : State) : Replays.Action → Bool
  | .base (.start tid entry) =>
      match entry with
      | .reminder .. => false
      | _ => s.resting tid
  | .base (.deliver tid _) => s.resting tid
  | .base (.crash tid) => s.resting tid
  | _ => true

/-- The worker, the row, the transaction and its outcome, when a step
runs a transaction for the handler of a fire. -/
def State.calls (env : Env) (s : State) (a : Replays.Action) :
    Option (Nat × ScheduledJob × Tx × Bool) :=
  match a with
  | .base (.advance tid reply) =>
      match (s.fires tid).point,
        committing env (.advance tid reply) s.inner.base with
      | .calling row _, some tx =>
          some (tid, row, tx,
            (tx.commit env.cfg s.inner.base.now s.inner.base.db).isOk)
      | _, _ => none
  | _ => none

/-- The transaction of a reminder that wakes nobody is the task's. -/
def ofTask : Tx → Bool
  | .handleReminder _ _ wake _ _ _ _ => !wake
  | _ => false

/-- What the outcome of such a transaction is for the fire. -/
def State.called (s : State) (tid : Nat) (row : ScheduledJob) (tx : Tx)
    (ok : Bool) : State :=
  if ok then
    let s₁ := { s with log := .effect row.id :: s.log }
    if ofTask tx then s₁.fired tid row else s₁.goto tid (.calling row true)
  else s.ends tid  -- the session is of no more use

/-- Take one step, or `none` when it is not enabled. -/
def apply (env : Env) (a : Action) (s : State) : Option State :=
  match a with
  | .inner a =>
      if s.admits a then
        (Replays.apply env a s.inner).map fun inner =>
          let s' := { s with inner := inner }
          match s.calls env a with
          | some (tid, row, tx, ok) => s'.called tid row tx ok
          | none => s'
      else none
  | .register id => some { s with entries := insert id s.entries }
  | .unregister id => some { s with entries := s.entries.erase id }
  | .beat id =>
      if id ∈ s.entries then some { s with sent := s.sent ++ [id] }
      else none
  | .deliver tid mid =>
      if (s.fires tid).point = .idle ∧ (s.inner.base.tasks tid).pc.isIdle
          ∧ mid ∉ s.acked then
        (s.sent[mid]?).map fun id =>
          { s with
            fires := Function.update s.fires tid
              ⟨.received id, some mid⟩ }
      else none
  | .check tid =>
      match (s.fires tid).point with
      | .received id =>
          match s.schedules.get id with
          | some row =>
              if row.status = .active ∧ row.kind ∈ jobKindRegistry then
                some (s.goto tid (.checked row))
              else some (s.ends tid)
          | none => some (s.ends tid)
      | _ => none
  | .handle tid =>
      match (s.fires tid).point with
      | .checked row =>
          let s₁ := { s with log := .started row.id :: s.log }
          match handlerCall row with
          | .answer => some (s₁.goto tid (.calling row false))
          | .reject => some (s₁.ends tid)
          | .poll mailboxId => some (s₁.goto tid (.polling row mailboxId))
          | .reminder sid message wake payload =>
              (Replays.apply env
                (.base (.start tid (.reminder sid message wake payload)))
                s.inner).map fun inner =>
                  { s₁ with inner := inner }.goto tid (.calling row false)
          | .replay sid rid step context =>
              (Replays.apply env
                (.base (.start tid (.replay sid rid step context)))
                s.inner).map fun inner =>
                  { s₁ with inner := inner }.goto tid (.calling row false)
      | _ => none
  | .publishPoll tid raised =>
      match (s.fires tid).point with
      | .polling row mailboxId =>
          if raised then some (s.goto tid (.calling row false))
          else
            some ({ s with
              polls := mailboxId :: s.polls
              log := .effect row.id :: s.log }.goto tid
                (.calling row true))
      | _ => none
  | .finish tid =>
      match (s.fires tid).point with
      | .calling row _ =>
          if (s.inner.base.tasks tid).pc.isIdle then some (s.fired tid row)
          else none
      | _ => none
  | .fail tid =>
      if s.resting tid then none
      else
        (Replays.apply env (.base (.crash tid)) s.inner).map fun inner =>
          { s with inner := inner }.ends tid
  | .crash tid =>
      if s.resting tid then none
      else
        (Replays.apply env (.base (.crash tid)) s.inner).map fun inner =>
          { s with
            inner := inner
            fires := Function.update s.fires tid .idle }

end LegalBot.Firing
