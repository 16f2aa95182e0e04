/-
The polling of mailboxes: `_poll_mailbox` and `_ingest_message` of
`workers/ingest.py` as tasks of an at-least-once broker, over a provider
whose inboxes grow.

# Steps

`_poll_mailbox` reads the row of the mailbox, asks the adapter, commits
the new cursor, and only then enqueues one `ingest_message` a message,
from a list it holds in memory. Each of these is a step. `_ingest_message`
fetches its message and commits the `upsert`, which is one step here
(`commit_upserts` gives it statement by statement).

# The broker

A message is delivered to an idle worker any number of times until it is
acknowledged. With `task_acks_late` that is when the task has ended,
returned or raised; a crash acknowledges nothing.

# The adapter

A cursor stands for a position in the order in which the messages of the
inbox have arrived. `Adapter` is any adapter that lists exactly the
messages after it. Which message a fetch returns is the one asked for.
-/
import LegalBot.Ingestion.Email
import LegalBot.Lib.System

namespace LegalBot.Polling

open Mail (RawMessage)

-- ============================================================== the adapter

/-- `list_new_messages`, on the inbox of the mailbox and a cursor. -/
structure Adapter where
  /-- How many messages are at or before a cursor. -/
  position : Json → Nat
  listNewMessages : List RawMessage → Json → List RawMessage × Json
  start : position (.obj []) = 0
  lists : ∀ inbox cursor m,
    m ∈ (listNewMessages inbox cursor).1
      ↔ m ∈ inbox.drop (position cursor)
  advances : ∀ inbox cursor,
    position (listNewMessages inbox cursor).2
      = max (position cursor) inbox.length

/-- The adapters and the owners of the mailboxes that are there. -/
structure Deployment where
  adapter : Uuid → Adapter
  owner : Uuid → Option String

-- =================================================================== states

/-- A Celery message. -/
inductive TaskMessage where
  | pollMailbox (mailboxId : Uuid)
  | ingestMessage (mailboxId : Uuid) (providerMessageId : String)
  deriving DecidableEq, Repr

/-- Where a task is. -/
inductive Point where
  | idle
  | poll (mailboxId : Uuid)
  | listing (mailboxId : Uuid) (cursor : Option Json)
  | listed (mailboxId : Uuid) (cursor : Option Json)
      (messages : List RawMessage) (newCursor : Json)
  | enqueuing (mailboxId : Uuid) (rest : List RawMessage)
  | ingest (mailboxId : Uuid) (providerMessageId : String)
  | fetched (mailboxId : Uuid) (ownerUserId : String) (raw : RawMessage)
  | ended

/-- Where the task of a message starts. -/
def TaskMessage.entry : TaskMessage → Point
  | .pollMailbox mb => .poll mb
  | .ingestMessage mb id => .ingest mb id

/-- A worker and the message it will acknowledge. -/
structure Worker where
  point : Point
  message : Option Nat

/-- The database, the column `mailbox.cursor`, the inboxes of the
provider, and the broker: `sent` is append-only. -/
structure State where
  db : Db
  now : Time
  cursor : Uuid → Option Json
  inbox : Uuid → List RawMessage
  sent : List TaskMessage
  acked : Finset Nat
  workers : Nat → Worker

def State.init : State :=
  { db := .empty, now := 0, cursor := fun _ => none, inbox := fun _ => []
    sent := [], acked := ∅, workers := fun _ => ⟨.idle, none⟩ }

/-- What may happen next; the uuid4s of an `upsert` are arguments. -/
inductive Action where
  | tick (seconds : Nat)
  | arrive (mailboxId : Uuid) (raw : RawMessage)
  | schedule (mailboxId : Uuid)
  | deliver (w k : Nat)
  | readMailbox (w : Nat)
  | listMessages (w : Nat)
  | commitCursor (w : Nat)
  | enqueue (w : Nat)
  | fetch (w : Nat) (raw : RawMessage)
  | upsert (w : Nat) (itemId jobId : Uuid) (attachmentIds : List Uuid)
  | raise (w : Nat)
  | acknowledge (w : Nat)
  | crash (w : Nat)

-- ==================================================================== steps

/-- `mb.cursor or {}`. -/
def cursorValue (cursor : Option Json) : Json := cursor.getD (.obj [])

/-- What `map_email` hands to the modelled columns. -/
def mappedItem (raw : RawMessage) : MappedItem :=
  { source := (Mail.mapEmail raw).source
    externalId := (Mail.mapEmail raw).externalId
    providerThreadId := (Mail.mapEmail raw).detail.providerThreadId
    attachments := (Mail.mapEmail raw).attachments.map (·.name) }

/-- Move a worker on in its task. -/
def State.moveTo (s : State) (w : Nat) (point : Point) : State :=
  { s with
    workers := Function.update s.workers w
      { s.workers w with point := point } }

/-- `svc.get`: it raises for a mailbox that is not there. -/
def readMailbox (d : Deployment) (s : State) (w : Nat) : Option State :=
  match (s.workers w).point with
  | .poll mb =>
      match d.owner mb with
      | some _ => some (s.moveTo w (.listing mb (s.cursor mb)))
      | none => some (s.moveTo w .ended)
  | _ => none

/-- `adapter.list_new_messages`. -/
def listMessages (d : Deployment) (s : State) (w : Nat) : Option State :=
  match (s.workers w).point with
  | .listing mb cursor =>
      let result := (d.adapter mb).listNewMessages (s.inbox mb)
        (cursorValue cursor)
      some (s.moveTo w (.listed mb cursor result.1 result.2))
  | _ => none

/-- `mb.cursor = new_cursor.value` and the commit. A value equal to the
one read is no change, and no `UPDATE`. -/
def commitCursor (s : State) (w : Nat) : Option State :=
  match (s.workers w).point with
  | .listed mb cursor messages newCursor =>
      let s' := if cursor = some newCursor then s else
        { s with cursor := Function.update s.cursor mb (some newCursor) }
      some (s'.moveTo w (.enqueuing mb messages))
  | _ => none

/-- One round of the enqueue loop, or its end. -/
def enqueue (s : State) (w : Nat) : Option State :=
  match (s.workers w).point with
  | .enqueuing mb (raw :: rest) =>
      let message := TaskMessage.ingestMessage mb raw.providerMessageId
      some ({ s with sent := s.sent ++ [message] }.moveTo w
        (.enqueuing mb rest))
  | .enqueuing _ [] => some (s.moveTo w .ended)
  | _ => none

/-- `svc.get` and `adapter.fetch_message`; an attachment whose download
fails is stored empty. -/
def fetch (d : Deployment) (s : State) (w : Nat) (raw : RawMessage) :
    Option State :=
  match (s.workers w).point with
  | .ingest mb id =>
      match d.owner mb with
      | some owner =>
          if raw.providerMessageId = id then
            some (s.moveTo w (.fetched mb owner raw))
          else none
      | none => some (s.moveTo w .ended)
  | _ => none

/-- The transaction of `_ingest_message`. What follows the commit writes
no item. -/
def commitItem (s : State) (w : Nat) (itemId jobId : Uuid)
    (attachmentIds : List Uuid) : Option State :=
  match (s.workers w).point with
  | .fetched _ owner raw =>
      match LegalBot.upsert s.db s.now (mappedItem raw) owner itemId jobId
          attachmentIds with
      | .ok db => some ({ s with db := db }.moveTo w .ended)
      | .error _ => some (s.moveTo w .ended)
  | _ => none

/-- Take one step, or `none` when it is not enabled. -/
def step (d : Deployment) (a : Action) (s : State) : Option State :=
  match a with
  | .tick seconds => some { s with now := s.now + seconds }
  | .arrive mb raw =>
      some { s with
        inbox := Function.update s.inbox mb (s.inbox mb ++ [raw]) }
  | .schedule mb => some { s with sent := s.sent ++ [.pollMailbox mb] }
  | .deliver w k =>
      match (s.workers w).point with
      | .idle =>
          if k ∈ s.acked then none
          else (s.sent[k]?).map fun message =>
            { s with
              workers := Function.update s.workers w
                ⟨message.entry, some k⟩ }
      | _ => none
  | .readMailbox w => readMailbox d s w
  | .listMessages w => listMessages d s w
  | .commitCursor w => commitCursor s w
  | .enqueue w => enqueue s w
  | .fetch w raw => fetch d s w raw
  | .upsert w itemId jobId ids => commitItem s w itemId jobId ids
  | .raise w =>
      match (s.workers w).point with
      | .idle => none
      | _ => some (s.moveTo w .ended)
  | .acknowledge w =>
      match (s.workers w).point, (s.workers w).message with
      | .ended, some k =>
          some { s with
            acked := insert k s.acked
            workers := Function.update s.workers w ⟨.idle, none⟩ }
      | _, _ => none
  | .crash w =>
      some { s with workers := Function.update s.workers w ⟨.idle, none⟩ }

-- ============================================================== statements

/-- The messages at or before the committed cursor of a mailbox. -/
def polled (d : Deployment) (s : State) (mb : Uuid) : List RawMessage :=
  (s.inbox mb).take
    ((d.adapter mb).position (cursorValue (s.cursor mb)))

/-- A message has an `ingestion_item`. -/
def HasItem (s : State) (raw : RawMessage) : Prop :=
  ∃ row ∈ s.db.items.rows, row.source = "email"
    ∧ row.externalId = raw.providerMessageId

/-- It has an `ingest_message` task queued or executing: one that is not
acknowledged. -/
def Queued (s : State) (mb : Uuid) (raw : RawMessage) : Prop :=
  ∃ k, k ∉ s.acked
    ∧ s.sent[k]? = some (.ingestMessage mb raw.providerMessageId)

/-- No message is lost at polling. -/
def NoneLost (d : Deployment) (s : State) : Prop :=
  ∀ mb, ∀ raw ∈ polled d s mb, HasItem s raw ∨ Queued s mb raw

end LegalBot.Polling
