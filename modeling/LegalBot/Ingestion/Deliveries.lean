/-
`IngestionItemService.upsert` inside the transaction of the ingest task,
one statement a step, under READ COMMITTED: `n` concurrent deliveries
next to the other transactions of the system.

# Visibility

A statement sees the rows committed when it runs and what its own
transaction wrote; what that is depends on the program point
(`IngestPoint.writes`). A commit stores it. A statement that raises ends
its transaction, which may also end at any other time (`rollback`).

# Locks

An `INSERT` waits while another open transaction has inserted a row with
a key it conflicts with, be it the primary key or the key of its `ON
CONFLICT`; a guarded `UPDATE` waits while another open transaction has
updated the row. A step that waits is not enabled. After the wait the
statement sees what was committed meanwhile.

# Ghost data

`delivered` collects what was delivered. No statement reads it.
-/
import LegalBot.Orchestrator.Tx
import LegalBot.Lib.System
import Mathlib.Data.Fintype.Basic

namespace LegalBot

open Relational (HasKey Table)

-- ==================================================================== rows

/-- The arguments of `upsert`, and the time of its transaction. -/
structure IngestCall where
  mapped : MappedItem
  ownerUserId : String
  now : Time
  deriving DecidableEq, Repr

/-- The row is under the key of `uq_ingestion_item_source_external`. -/
def MappedItem.Matches (mapped : MappedItem) (row : IngestionItem) : Prop :=
  row.source = mapped.source ∧ row.externalId = mapped.externalId

instance (mapped : MappedItem) (row : IngestionItem) :
    Decidable (mapped.Matches row) := by
  unfold MappedItem.Matches
  infer_instance

/-- The item it inserts. -/
def IngestCall.item (c : IngestCall) (id : Uuid) : IngestionItem :=
  { id := id, source := c.mapped.source
    externalId := c.mapped.externalId, ownerUserId := c.ownerUserId }

/-- The source-specific detail rows. -/
def IngestCall.details (c : IngestCall) (itemId : Uuid) :
    List EmailMetadata :=
  if c.mapped.source = "email" then
    [{ ingestionItemId := itemId
       providerThreadId := c.mapped.providerThreadId }]
  else []

/-- The attachment rows, one a spec. -/
def IngestCall.attachmentRows (c : IngestCall) (itemId : Uuid)
    (ids : List Uuid) : List IngestionAttachment :=
  (ids.zip c.mapped.attachments).map fun (id, name) =>
    { id := id, ingestionItemId := itemId, name := name }

/-- What a transaction has written: inserted rows, and the committed jobs
it has moved from `intake` to `ready`. -/
structure IngestWrites where
  items : List IngestionItem
  emailMetadata : List EmailMetadata
  attachments : List IngestionAttachment
  jobs : List ProcessingJob
  readied : List Uuid
  deriving DecidableEq

def IngestWrites.none : IngestWrites := ⟨[], [], [], [], []⟩

/-- The item with its details and attachments. -/
def IngestCall.rows (c : IngestCall) (itemId : Uuid)
    (attachmentIds : List Uuid) : IngestWrites :=
  { items := [c.item itemId]
    emailMetadata := c.details itemId
    attachments := c.attachmentRows itemId attachmentIds
    jobs := [], readied := [] }

/-- A job after its `intake -> ready` transition. -/
def readiedJob (now : Time) (job : ProcessingJob) : ProcessingJob :=
  transitionValues .ready now JobExtra.none job

-- ================================================================== points

/-- The program points of `upsert` and of the commit after it. `own`
tells a job this transaction inserted from one it found. -/
inductive IngestPoint where
  | idle
  | insertItem (c : IngestCall)
  | selectItem (c : IngestCall)
  | insertRows (c : IngestCall) (itemId : Uuid)
  | insertJob (c : IngestCall) (itemId : Uuid) (attachmentIds : List Uuid)
  | selectJob (c : IngestCall) (itemId : Uuid) (attachmentIds : List Uuid)
  | promote (c : IngestCall) (itemId : Uuid) (attachmentIds : List Uuid)
      (job : ProcessingJob) (own : Bool)
  | commit (c : IngestCall) (row : IngestionItem)
      (job : Option ProcessingJob) (w : IngestWrites)
  | returned (row : IngestionItem) (job : Option ProcessingJob)
  | raised (e : TxError)
  deriving DecidableEq

/-- No transaction is open. -/
def IngestPoint.isDone : IngestPoint → Bool
  | .idle | .returned .. | .raised _ => true
  | _ => false

/-- What the open transaction has written. -/
def IngestPoint.writes : IngestPoint → IngestWrites
  | .insertRows c itemId =>
      { IngestWrites.none with items := [c.item itemId] }
  | .insertJob c itemId ids | .selectJob c itemId ids => c.rows itemId ids
  | .promote c itemId ids job own =>
      { c.rows itemId ids with jobs := if own then [job] else [] }
  | .commit _ _ _ w => w
  | _ => .none

-- ================================================================== states

/-- The committed database and `n` deliveries. -/
structure IngestState (n : Nat) where
  db : Db
  now : Time
  tasks : Fin n → IngestPoint
  delivered : List IngestCall

def IngestState.init (n : Nat) : IngestState n :=
  { db := .empty, now := 0, tasks := fun _ => .idle, delivered := [] }

/-- What may happen next; `ids` are the uuid4s a statement draws. -/
inductive IngestAction (n : Nat) where
  | tick (seconds : Nat)
  | deliver (t : Fin n) (mapped : MappedItem) (ownerUserId : String)
  | statement (t : Fin n) (ids : List Uuid)
  | commit (t : Fin n)
  | rollback (t : Fin n)
  | other (tx : Tx)

section Statements

variable {n : Nat}

/-- Another open transaction has written something that meets `p`. -/
def IngestState.Waits (s : IngestState n) (t : Fin n)
    (p : IngestWrites → Prop) : Prop :=
  ∃ t', t' ≠ t ∧ p (s.tasks t').writes

instance (s : IngestState n) (t : Fin n) (p : IngestWrites → Prop)
    [DecidablePred p] : Decidable (s.Waits t p) := by
  unfold IngestState.Waits
  infer_instance

/-- An item with this id, or under the key of the message. -/
def IngestWrites.HasItem (mapped : MappedItem) (id : Uuid)
    (w : IngestWrites) : Prop :=
  ∃ r ∈ w.items, r.id = id ∨ mapped.Matches r

/-- A detail row of the item, or an attachment with one of the ids. -/
def IngestWrites.HasRows (itemId : Uuid) (ids : List Uuid)
    (w : IngestWrites) : Prop :=
  (∃ r ∈ w.emailMetadata, r.ingestionItemId = itemId)
    ∨ ∃ r ∈ w.attachments, r.id ∈ ids

/-- A job with this id, or of the item. -/
def IngestWrites.HasJob (id itemId : Uuid) (w : IngestWrites) : Prop :=
  ∃ r ∈ w.jobs, r.id = id ∨ r.ingestionItemId = itemId

instance (mapped : MappedItem) (id : Uuid) :
    DecidablePred (IngestWrites.HasItem mapped id) := fun w => by
  unfold IngestWrites.HasItem
  infer_instance

instance (itemId : Uuid) (ids : List Uuid) :
    DecidablePred (IngestWrites.HasRows itemId ids) := fun w => by
  unfold IngestWrites.HasRows
  infer_instance

instance (id itemId : Uuid) :
    DecidablePred (IngestWrites.HasJob id itemId) := fun w => by
  unfold IngestWrites.HasJob
  infer_instance

/-- The next statement of a delivery: the point after it, or `none` when
it waits or there is none. -/
def IngestState.statement (s : IngestState n) (t : Fin n)
    (ids : List Uuid) : Option IngestPoint :=
  match s.tasks t with
  | .insertItem c =>
      match ids with
      | [id] =>
          if s.db.items.rows.any fun r => c.mapped.Matches r then
            some (.selectItem c)
          else if s.Waits t (IngestWrites.HasItem c.mapped id) then none
          else if (s.db.items.get id).isSome then
            some (.raised .integrityError)
          else some (.insertRows c id)
      | _ => none
  | .selectItem c =>
      match s.db.items.rows.find? fun r => c.mapped.Matches r with
      | some row => some (.commit c row none .none)
      | none => some (.raised .noResultFound)
  | .insertRows c itemId =>
      if ids.length ≠ c.mapped.attachments.length then none
      else if s.Waits t (IngestWrites.HasRows itemId ids) then none
      else
        match Table.insertAll (c.details itemId) s.db.emailMetadata,
          Table.insertAll (c.attachmentRows itemId ids)
            s.db.attachments with
        | some _, some _ => some (.insertJob c itemId ids)
        | _, _ => some (.raised .integrityError)
  | .insertJob c itemId attachmentIds =>
      match ids with
      | [id] =>
          if s.db.jobs.rows.any fun r => r.ingestionItemId = itemId then
            some (.selectJob c itemId attachmentIds)
          else if s.Waits t (IngestWrites.HasJob id itemId) then none
          else if (s.db.jobs.get id).isSome then
            some (.raised .integrityError)
          else some (.promote c itemId attachmentIds
            (newJob id itemId c.ownerUserId c.now) true)
      | _ => none
  | .selectJob c itemId attachmentIds =>
      match s.db.jobs.rows.find? fun r => r.ingestionItemId = itemId with
      | some job =>
          if job.state = .intake then
            some (.promote c itemId attachmentIds job false)
          else some (.commit c (c.item itemId) (some job)
            (c.rows itemId attachmentIds))
      | none => some (.raised .noResultFound)
  | .promote c itemId attachmentIds job own =>
      let w := c.rows itemId attachmentIds
      if own then
        some (.commit c (c.item itemId) (some (readiedJob c.now job))
          { w with jobs := [readiedJob c.now job] })
      else if s.Waits t fun w' => job.id ∈ w'.readied then none
      else
        match transition s.db.jobs c.now job.id .intake .ready
            JobExtra.none with
        | .ok _ => some (.commit c (c.item itemId)
            (some (readiedJob c.now job)) { w with readied := [job.id] })
        | .error e => some (.raised (.invalidJobTransition e.message))
  | _ => none

/-- The guarded updates of a transaction. -/
def readyJobs (now : Time) :
    List Uuid → Table ProcessingJob → Except TxError (Table ProcessingJob)
  | [], jobs => .ok jobs
  | id :: rest, jobs => do
      let jobs' ← guarded (transition jobs now id .intake .ready
        JobExtra.none)
      readyJobs now rest jobs'

/-- Store what a transaction has written. -/
def IngestWrites.store (w : IngestWrites) (now : Time) (db : Db) :
    Except TxError Db := do
  let items ← flushed (Table.insertAll w.items db.items)
  let emailMetadata ← flushed
    (Table.insertAll w.emailMetadata db.emailMetadata)
  let attachments ← flushed
    (Table.insertAll w.attachments db.attachments)
  let jobs ← flushed (Table.insertAll w.jobs db.jobs)
  let jobs ← readyJobs now w.readied jobs
  pure { db with
    items := items, emailMetadata := emailMetadata
    attachments := attachments, jobs := jobs }

/-- Move a delivery to a point. -/
def IngestState.moveTo (s : IngestState n) (t : Fin n)
    (point : IngestPoint) : IngestState n :=
  { s with tasks := Function.update s.tasks t point }

/-- `await db.commit()` of the ingest task. -/
def IngestState.commit (s : IngestState n) (t : Fin n) :
    Option (IngestState n) :=
  match s.tasks t with
  | .commit c row job w =>
      match w.store c.now s.db with
      | .ok db => some ({ s with db := db }.moveTo t (.returned row job))
      | .error e => some (s.moveTo t (.raised e))
  | _ => none

/-- The transactions of `upsert` are the deliveries'. -/
def Tx.ingests : Tx → Bool
  | .upsert .. => true
  | _ => false

/-- Take one step, or `none` when it is not enabled. -/
def IngestState.step (cfg : Settings) (a : IngestAction n)
    (s : IngestState n) : Option (IngestState n) :=
  match a with
  | .tick d => some { s with now := s.now + d }
  | .deliver t mapped owner =>
      if (s.tasks t).isDone then
        some ({ s with
          delivered := ⟨mapped, owner, s.now⟩ :: s.delivered }.moveTo t
            (.insertItem ⟨mapped, owner, s.now⟩))
      else none
  | .statement t ids => (s.statement t ids).map (s.moveTo t)
  | .commit t => s.commit t
  | .rollback t => some (s.moveTo t .idle)
  | .other tx =>
      if tx.ingests then none
      else
        match tx.commit cfg s.now s.db with
        | .ok db => some { s with db := db }
        | .error _ => none

/-- The states that the deliveries reach. -/
abbrev IngestReaches (cfg : Settings) : IngestState n → Prop :=
  Lts.Reachable (IngestState.step cfg) Lts.Always (IngestState.init n)

end Statements

end LegalBot
