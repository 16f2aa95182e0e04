/-
The ingest task of a message, with all the columns it writes and with
its blobs: `_ingest_message` (`workers/ingest.py`), `map_email`
(`ingestion/sources/email.py`), `IngestionItemService.upsert`
(`ingestion/items.py`) and `LocalBlobStore` (`artifacts/blobstore.py`).

# Rows

An `IngestionItem` here is the ORM object: its columns and its
relationships `email_metadata`, `attachments` and `job`, which one
transaction inserts together. `IngestWrites.ofItems` lays the objects
out as the rows of the tables.

# Steps

The loop over the attachments runs before the transaction and writes
each blob when it comes to it (`MailOp.blob`). The transaction is one
step (`MailOp.commit`): `commit_upserts` proves that statement by
statement it comes to the same. A task ends anywhere when it crashes.

# The blob store

`BlobStore` is the log of its successful writes, the latest first. A
file cannot be written at or below a path where the other is a
directory. Other errors of the file system are not modelled. Who wrote a
blob is ghost data.

# Fresh ids

The uuid4s of a transaction are not those of stored rows; a step that
would draw one again is not enabled.
-/
import LegalBot.Json
import LegalBot.Ingestion.Deliveries

namespace LegalBot.Mail

-- ======================================================= providers/base.py

abbrev Bytes := List UInt8

/-- `RawAttachment`. -/
structure RawAttachment where
  partId : String
  name : String
  mimeType : String
  size : Option Int
  data : Option Bytes

/-- `RawMessage`. -/
structure RawMessage where
  providerMessageId : String
  providerThreadId : Option String
  subject : Option String
  bodyText : Option String
  bodyHtml : Option String
  fromAddr : Option String
  toAddrs : List String
  ccAddrs : List String
  bccAddrs : List String
  inReplyTo : Option String
  references : List String
  headers : Json
  receivedAt : Option Time
  attachments : List RawAttachment
  raw : Json

-- ======================================================= ingestion/base.py

/-- `AttachmentSpec`. -/
structure AttachmentSpec where
  name : String
  mimeType : Option String
  size : Option Int
  rawUri : Option String
  deriving DecidableEq, Repr

/-- The `detail` dict of an email. -/
structure EmailDetail where
  providerMessageId : String
  providerThreadId : Option String
  fromAddr : Option String
  toAddrs : List String
  ccAddrs : List String
  bccAddrs : List String
  inReplyTo : Option String
  references : List String
  rawHeaders : Json
  deriving DecidableEq

/-- `MappedItem`. -/
structure MappedItem where
  source : String
  externalId : String
  title : Option String
  bodyText : Option String
  bodyHtml : Option String
  senderIdentity : Option String
  rawPayload : Json
  receivedAt : Option Time
  detail : EmailDetail
  attachments : List AttachmentSpec

-- ============================================== ingestion/sources/email.py

/-- `map_email`. -/
def mapEmail (msg : RawMessage) : MappedItem :=
  { source := "email"
    externalId := msg.providerMessageId
    title := msg.subject
    bodyText := msg.bodyText
    bodyHtml := msg.bodyHtml
    senderIdentity := some (msg.fromAddr.getD "")
    rawPayload := .obj [("raw", msg.raw), ("headers", msg.headers)]
    receivedAt := msg.receivedAt
    detail :=
      { providerMessageId := msg.providerMessageId
        providerThreadId := msg.providerThreadId
        fromAddr := msg.fromAddr
        toAddrs := msg.toAddrs
        ccAddrs := msg.ccAddrs
        bccAddrs := msg.bccAddrs
        inReplyTo := msg.inReplyTo
        references := msg.references
        rawHeaders := msg.headers }
    attachments := msg.attachments.map fun a =>
      { name := a.name, mimeType := some a.mimeType, size := a.size
        rawUri := none } }

-- ======================================================= workers/ingest.py

/-- What a task fetches: the message, and for each part what
`download_attachment` returns (`none` when it raises). -/
structure Fetched where
  raw : RawMessage
  download : String → Option Bytes

/-- `attachments_bytes`, as its assignments, the latest first. -/
def Fetched.attachmentsBytes (f : Fetched) : List (String × Bytes) :=
  f.raw.attachments.foldl (fun d att =>
    match att.data with
    | some data => (att.name, data) :: d
    | none => (att.name, (f.download att.partId).getD []) :: d) []

-- ================================================= artifacts/blobstore.py

/-- The parts of a path below the root of the store. -/
abbrev Path := List (List Char)

/-- `key.replace("..", "_")`. -/
def replaceDots : List Char → List Char
  | '.' :: '.' :: rest => '_' :: replaceDots rest
  | c :: rest => c :: replaceDots rest
  | [] => []

/-- `LocalBlobStore._resolve`; `pathlib` drops empty parts and `.`. -/
def resolve (key : String) : Path :=
  let clean := (replaceDots key.toList).dropWhile (· = '/')
  (clean.splitOn '/').filter fun part => part ≠ [] ∧ part ≠ ['.']

/-- A mailbox, as far as ingestion reads it. -/
structure Mailbox where
  id : Uuid
  ownerUserId : String
  deriving DecidableEq, Repr

/-- A successful write. -/
structure BlobWrite where
  writer : Mailbox
  path : Path
  data : Bytes
  deriving DecidableEq

abbrev BlobStore := List BlobWrite

/-- One is a directory on the way to the other. -/
def Nested (p q : Path) : Prop := p ≠ q ∧ (p <+: q ∨ q <+: p)

instance (p q : Path) : Decidable (Nested p q) := by
  unfold Nested
  infer_instance

/-- `put`: makes the parent directories and writes the file. -/
def BlobStore.put (blobs : BlobStore) (writer : Mailbox) (key : String)
    (data : Bytes) : Option BlobStore :=
  if resolve key = [] ∨ ∃ b ∈ blobs, Nested b.path (resolve key) then none
  else some (⟨writer, resolve key, data⟩ :: blobs)

/-- What is stored at a path. -/
def BlobStore.at (blobs : BlobStore) (p : Path) : Option Bytes :=
  (blobs.find? fun b => b.path = p).map (·.data)

/-- `get`. -/
def BlobStore.get (blobs : BlobStore) (key : String) : Option Bytes :=
  blobs.at (resolve key)

-- ====================================================== ingestion/items.py

/-- `attachments_bytes.get(spec.name) or
attachments_bytes.get(spec.raw_uri or "")`. -/
def specData (d : List (String × Bytes)) (spec : AttachmentSpec) :
    Option Bytes :=
  match d.lookup spec.name with
  | some (b :: data) => some (b :: data)
  | _ => d.lookup (spec.rawUri.getD "")

/-- The reference of a blob. -/
def blobRef (mapped : MappedItem) (name : String) : String :=
  "ingestion/" ++ mapped.source ++ "/" ++ mapped.externalId ++ "/" ++ name

/-- What the loop puts for a spec: `if data and not spec.raw_uri`. The
enclosing `if attachments_bytes` changes nothing. -/
def specBlob (mapped : MappedItem) (d : List (String × Bytes))
    (spec : AttachmentSpec) : Option (String × Bytes) :=
  match specData d spec with
  | some (b :: data) =>
      if spec.rawUri.getD "" = "" then
        some (blobRef mapped spec.name, b :: data)
      else none
  | _ => none

/-- The spec after its blob is stored. -/
def AttachmentSpec.stored (spec : AttachmentSpec) (ref : String)
    (data : Bytes) : AttachmentSpec :=
  { spec with
    rawUri := some ref
    size := some (spec.size.getD data.length) }

/-- `email_metadata`. -/
structure EmailMetadata where
  mailboxId : Option Uuid
  detail : EmailDetail
  deriving DecidableEq

/-- `ingestion_attachment`. -/
structure IngestionAttachment where
  id : Uuid
  name : String
  mimeType : Option String
  size : Option Int
  rawUri : Option String
  deriving DecidableEq

/-- `ingestion_item` and what hangs on it. -/
structure IngestionItem where
  id : Uuid
  source : String
  externalId : String
  title : Option String
  bodyText : Option String
  bodyHtml : Option String
  senderIdentity : Option String
  rawPayload : Json
  receivedAt : Option Time
  ownerUserId : String
  emailMetadata : Option EmailMetadata
  attachments : List IngestionAttachment
  job : ProcessingJob

/-- The uuid4s a transaction draws, and its time. -/
structure Draw where
  itemId : Uuid
  jobId : Uuid
  attachmentIds : List Uuid
  now : Time

/-- What `create_with_attachments` and `promote_to_ready` insert. -/
def newItem (mb : Mailbox) (mapped : MappedItem) (draw : Draw) :
    IngestionItem :=
  { id := draw.itemId
    source := mapped.source
    externalId := mapped.externalId
    title := mapped.title
    bodyText := mapped.bodyText
    bodyHtml := mapped.bodyHtml
    senderIdentity := mapped.senderIdentity
    rawPayload := mapped.rawPayload
    receivedAt := mapped.receivedAt
    ownerUserId := mb.ownerUserId
    emailMetadata :=
      if mapped.source = "email" then some ⟨some mb.id, mapped.detail⟩
      else none
    attachments := (draw.attachmentIds.zip mapped.attachments).map
      fun (id, att) =>
        { id := id, name := att.name, mimeType := att.mimeType
          size := att.size, rawUri := att.rawUri }
    job := readiedJob draw.now
      (newJob draw.jobId draw.itemId mb.ownerUserId draw.now) }

/-- The ids are new. -/
def Draw.Fresh (draw : Draw) (items : List IngestionItem) : Prop :=
  (∀ r ∈ items, r.id ≠ draw.itemId ∧ r.job.id ≠ draw.jobId
      ∧ ∀ a ∈ r.attachments, a.id ∉ draw.attachmentIds)
    ∧ draw.attachmentIds.Nodup

instance (draw : Draw) (items : List IngestionItem) :
    Decidable (draw.Fresh items) := by
  unfold Draw.Fresh
  infer_instance

-- =================================================================== tasks

/-- Where the task is: in the loop over the attachments, with the specs
it is through with and those to come, or at its end. -/
inductive MailPoint where
  | idle
  | blobs (mapped : MappedItem) (d : List (String × Bytes))
      (through rest : List AttachmentSpec)
  | returned (row : IngestionItem) (created : Bool)
  | raised

/-- Items, blobs, and the tasks, several a mailbox. -/
structure MailState where
  items : List IngestionItem
  blobs : BlobStore
  tasks : Mailbox → Nat → MailPoint

def MailState.init : MailState :=
  { items := [], blobs := [], tasks := fun _ _ => .idle }

inductive MailOp where
  | deliver (f : Fetched)
  | blob
  | commit (draw : Draw)
  | crash

/-- A step of a task of a mailbox. -/
structure MailAction where
  mailbox : Mailbox
  worker : Nat
  op : MailOp

/-- Move a task to a point. -/
def MailState.moveTo (s : MailState) (mb : Mailbox) (w : Nat)
    (point : MailPoint) : MailState :=
  { s with
    tasks := Function.update s.tasks mb
      (Function.update (s.tasks mb) w point) }

/-- One round of the loop over the attachments. -/
def MailState.blob (s : MailState) (mb : Mailbox) (w : Nat) :
    Option MailState :=
  match s.tasks mb w with
  | .blobs mapped d through (spec :: rest) =>
      match specBlob mapped d spec with
      | none => some (s.moveTo mb w
          (.blobs mapped d (through ++ [spec]) rest))
      | some (ref, data) =>
          match s.blobs.put mb ref data with
          | none => some (s.moveTo mb w .raised)
          | some blobs => some ({ s with blobs := blobs }.moveTo mb w
              (.blobs mapped d (through ++ [spec.stored ref data]) rest))
  | _ => none

/-- The transaction. -/
def MailState.commit (s : MailState) (mb : Mailbox) (w : Nat)
    (draw : Draw) : Option MailState :=
  match s.tasks mb w with
  | .blobs mapped _ through [] =>
      match s.items.find? fun r => r.source = mapped.source
          ∧ r.externalId = mapped.externalId with
      | some row => some (s.moveTo mb w (.returned row false))
      | none =>
          let row := newItem mb { mapped with attachments := through } draw
          if draw.Fresh s.items
              ∧ draw.attachmentIds.length = through.length then
            some ({ s with items := s.items ++ [row] }.moveTo mb w
              (.returned row true))
          else none
  | _ => none

/-- Take one step, or `none` when it is not enabled. -/
def MailState.step (a : MailAction) (s : MailState) : Option MailState :=
  match a.op with
  | .deliver f =>
      match s.tasks a.mailbox a.worker with
      | .blobs .. => none
      | _ =>
          let mapped := mapEmail f.raw
          some (s.moveTo a.mailbox a.worker
            (.blobs mapped f.attachmentsBytes [] mapped.attachments))
  | .blob => s.blob a.mailbox a.worker
  | .commit draw => s.commit a.mailbox a.worker draw
  | .crash => some (s.moveTo a.mailbox a.worker .idle)

-- ==================================================================== view

/-- What an owner has: the items, with their jobs and the bytes of their
attachments. -/
def MailState.view (s : MailState) (owner : String) :
    List (IngestionItem × List (Option Bytes)) :=
  (s.items.filter fun r => r.ownerUserId = owner).map fun r =>
    (r, r.attachments.map fun a => a.rawUri.bind s.blobs.get)

end LegalBot.Mail
