/-
`agents/tools/domain.py`: `run_attachment_extraction`, `analyze_image`
and `send_draft`, as programs on the tables and the blob store.

# What a call does

`Effect` is what a call does outside the session it reads with: a blob
it fetches, a version of an artifact it inserts, a draft it hands to a
provider (the id of the row is ghost), the draft it marks, its commit. A
program that raises keeps the effects it has had (`Lib/Raising.lean`).

# What is not here

`ToolEnv` is what the tools call: the extractors and the vision model,
the provider adapters, the decryption of credentials, Python's
`str.lower`, `str` and `repr`, and `ArtifactService` with its runtime.

# Rows

`Db` has the tables; `ToolDb` adds `mailbox` and `draft`, and the
columns of `email_metadata` and `ingestion_attachment` that only these
tools read.
-/
import LegalBot.Artifacts.Service
import LegalBot.Lib.Raising
import LegalBot.Scheduling.Firing

namespace LegalBot.Tools

open Relational (HasKey Table)
open Firing (parseUuid)

-- =================================================================== rows

/-- `mailbox`. -/
structure Mailbox where
  id : Uuid
  provider : String
  externalId : String
  credentials : Option (List UInt8)
  ownerUserId : String
  deriving DecidableEq

/-- `draft`. -/
structure Draft where
  id : Uuid
  jobId : Uuid
  sessionId : Uuid
  runId : Option Uuid
  artifactId : Uuid
  subject : Option String
  bodyText : Option String
  toAddrs : Option (List String)
  ccAddrs : Option (List String)
  inReplyToMessageId : Option String
  status : String
  deriving DecidableEq

instance : HasKey Mailbox Uuid := ⟨Mailbox.id⟩
instance : HasKey Draft Uuid := ⟨Draft.id⟩

/-- More columns of `email_metadata`. -/
structure EmailColumns where
  mailboxId : Option Uuid
  providerMessageId : Option String
  deriving DecidableEq

/-- More columns of `ingestion_attachment`. -/
structure FileColumns where
  mimeType : Option String
  rawUri : Option String
  deriving DecidableEq

/-- The tables of the tools; the columns are given by the row's key. -/
structure ToolDb where
  db : Db
  emails : Uuid → EmailColumns
  files : Uuid → FileColumns
  mailboxes : Table Mailbox
  drafts : Table Draft

/-- `providers.base.Draft`. -/
structure ProviderDraft where
  subject : Option String
  bodyText : Option String
  toAddrs : List String
  ccAddrs : List String
  inReplyToMessageId : Option String
  deriving DecidableEq

/-- `SendResult`. -/
structure SendResult where
  providerMessageId : Option String
  ok : Bool
  error : Option String
  deriving DecidableEq

/-- `ExtractionResult`, without the method. -/
structure ExtractionResult where
  ok : Bool
  text : String
  data : List (String × Json)
  error : Option String

-- =============================================================== programs

/-- What a call does outside the session it reads with. -/
inductive Effect where
  | readBlob (uri : String)
  | write (args : WriteArgs) (row : Artifact)
  | callProvider (draftId : Uuid) (mailbox : Mailbox)
      (handed : ProviderDraft)
  | markSent (draftId : Uuid)
  | commit
  deriving DecidableEq

/-- What a call raises. -/
inductive ToolError where
  | noResultFound
  | artifact (error : ArtifactError)
  | fileNotFound (uri : String)
  | extractor (text : String)
  | decrypt (text : String)
  | unknownProvider (provider : String)
  | adapter (text : String)
  deriving DecidableEq

/-- What the tools call. -/
structure ToolEnv where
  rt : Runtime
  svc : ArtifactService
  lower : String → String
  str : Content → String
  repr : String → String
  extract : List UInt8 → String → String → Except String ExtractionResult
  vision : List UInt8 → String → String → Except String Json
  decrypt : List UInt8 → Except String Json
  adapters : String →
    Option (Mailbox → Option Json → ProviderDraft →
      Except String SendResult)

/-- Who calls: the injected state, and the uuid4 values drawn. -/
structure Caller where
  sessionId : Uuid
  runId : Option Uuid
  firstId : Uuid
  secondId : Uuid

/-- What a call reads and changes; the effects are the oldest first. -/
structure ToolState where
  t : ToolDb
  blobs : Blobs
  effects : List Effect

/-- The code of a tool. -/
abbrev ToolM := ExceptT ToolError (StateM ToolState)

/-- A `SELECT`. -/
def query {α : Type} (f : ToolState → α) : ToolM α := do
  let s ← get
  pure (f s)

def emit (e : Effect) : ToolM Unit :=
  modify fun s => { s with effects := s.effects ++ [e] }

/-- A call that may raise. -/
def attempt {ε α : Type} (wrap : ε → ToolError) (x : Except ε α) :
    ToolM α :=
  match x with
  | .ok a => pure a
  | .error e => throw (wrap e)

/-- `v or default`. -/
def orText (v : Option String) (default : String) : String :=
  match v with
  | some s => if s = "" then default else s
  | none => default

/-- `text[:n]`. -/
def prefixOf (n : Nat) (text : String) : String :=
  String.ofList (text.toList.take n)

/-- A nullable text. -/
def jsonText : Option String → Json
  | some s => .str s
  | none => .null

-- ============================================================ attachments

/-- The item of a session, through its job; it has to have an email. -/
def itemOf (db : Db) (sessionId : Uuid) : Option IngestionItem := do
  let session ← db.sessions.get sessionId
  let job ← db.jobs.get session.jobId
  let item ← db.items.get job.ingestionItemId
  let _ ← db.emailMetadata.get item.id
  pure item

/-- The attachments of an item, in the order the query returns them. -/
def attachmentsOf (db : Db) (itemId : Uuid) : List IngestionAttachment :=
  db.attachments.rows.filter fun a => a.ingestionItemId = itemId

/-- `name == ref_lower or ref_lower in name`. -/
def nameMatches (env : ToolEnv) (ref : String)
    (att : IngestionAttachment) : Bool :=
  let name := env.lower att.name
  decide (name = env.lower ref)
    || decide ((env.lower ref).toList <:+: name.toList)

/-- The search by name. -/
def attachmentByName (env : ToolEnv) (db : Db) (sessionId : Uuid)
    (ref : String) : Option IngestionAttachment :=
  match itemOf db sessionId with
  | none => none
  | some item =>
      (attachmentsOf db item.id).find? (nameMatches env ref)

/-- The search by id: `none` when the reference is no UUID. -/
def attachmentById (db : Db) (ref : String) : Option IngestionAttachment :=
  (parseUuid (.str ref)).bind db.attachments.get

/-- `_resolve_attachment`. -/
def resolveAttachment (env : ToolEnv) (db : Db) (sessionId : Uuid)
    (ref : String) : Option IngestionAttachment :=
  match attachmentById db ref with
  | some att => some att
  | none => attachmentByName env db sessionId ref

/-- `ArtifactService.read` in the session of the caller. -/
def readKey (env : ToolEnv) (sessionId : Uuid) (key : String) :
    ToolM (Except ArtifactError Content) :=
  query fun s =>
    (read env.rt s.t.db.artifacts.rows s.blobs sessionId (.key key)
      none).map (·.2)

/-- The preview of `_skip_if_artifact_exists`. -/
def previewMember (env : ToolEnv) (sessionId : Uuid)
    (previewKey : Option String) : ToolM (List (String × Json)) :=
  match previewKey with
  | none => pure []
  | some key => do
      let preview ← readKey env sessionId key
      match preview with
      | .ok content =>
          pure [("preview", .str (prefixOf 500 (env.str content)))]
      | .error e =>
          if e.isNotFound then pure [("preview", .str "")]
          else throw (.artifact e)

/-- The findings of `_skip_if_artifact_exists`: a dict is passed on. -/
def findingsMember : Content → List (String × Json)
  | .value (.obj members) => [("findings", .obj members)]
  | _ => []

/-- `_skip_if_artifact_exists`. -/
def skipIfArtifactExists (env : ToolEnv) (sessionId : Uuid) (key : String)
    (previewKey : Option String) :
    ToolM (Option (List (String × Json))) := do
  let found ← readKey env sessionId key
  match found with
  | .error e =>
      if e.isNotFound then pure none else throw (.artifact e)
  | .ok content => do
      let preview ← previewMember env sessionId previewKey
      pure (some (("already_extracted", .bool true)
        :: preview ++ findingsMember content))

/-- The bytes of an attachment. -/
def rawBytes (att : IngestionAttachment) : ToolM (List UInt8) := do
  let uri ← query fun s => orText (s.t.files att.id).rawUri ""
  if uri = "" then pure []
  else do
    emit (.readBlob uri)
    let data ← query fun s => s.blobs uri
    match data with
    | some bytes => pure bytes
    | none => throw (.fileNotFound uri)

/-- `ArtifactService.write`, in the transaction of the call. -/
def writeArtifact (env : ToolEnv) (args : WriteArgs) (id : Uuid) :
    ToolM Artifact := do
  let s ← get
  match write env.rt env.svc s.t.db.artifacts s.blobs args id with
  | .error e => throw (.artifact e)
  | .ok (row, artifacts, blobs) => do
      set { s with
        t := { s.t with db := { s.t.db with artifacts := artifacts } }
        blobs := blobs
        effects := s.effects ++ [Effect.write args row] }
      pure row

/-- The arguments both tools give every artifact they write. -/
def extractArgs (caller : Caller) (att : IngestionAttachment)
    (filename key kind mime : String) (content : Content) : WriteArgs :=
  { sessionId := caller.sessionId, key := key, content := content
    kind := kind, producer := "extract", runId := caller.runId
    mime := mime
    metadata := some [("attachment_id", .str (toString att.id)),
      ("source_file", .str filename)]
    createdBy := none }

/-- The envelope of `run_attachment_extraction`. -/
def structuredOf (filename plainText : String) (result : ExtractionResult) :
    Json :=
  let fields := if result.ok then result.data else []
  let summary :=
    if plainText = "" then orText result.error ""
    else prefixOf 200 plainText
  let get := fun k default => (Json.getMember fields k).getD default
  .obj ([("source_file", .str filename),
      ("summary", get "summary" (.str summary)),
      ("entities", get "entities" (.arr [])),
      ("key_findings", get "key_findings" (.arr [])),
      ("pages", get "pages" .null), ("rows", get "rows" .null)]
    ++ if result.ok then [] else [("error", jsonText result.error)])

/-- `run_attachment_extraction`, once the attachment is found. -/
def extractAttachment (env : ToolEnv) (caller : Caller)
    (att : IngestionAttachment) : ToolM Json := do
  let filename := if att.name = "" then "attachment" else att.name
  let dataKey := "extracted_data/" ++ filename
  let textKey := "extracted_text/" ++ filename
  let skipped ← skipIfArtifactExists env caller.sessionId dataKey
    (some textKey)
  match skipped with
  | some payload =>
      pure (.obj (payload ++ [("text_artifact_key", .str textKey),
        ("data_artifact_key", .str dataKey),
        ("source_file", .str filename)]))
  | none => do
      let data ← rawBytes att
      let mime ← query fun s => (s.t.files att.id).mimeType
      let result ← attempt .extractor
        (env.extract data (orText mime "application/octet-stream") filename)
      let plainText := if result.ok then result.text else ""
      let textRow ← writeArtifact env
        (extractArgs caller att filename textKey "extracted_text"
          "text/plain" (.value (.str plainText)))
        caller.firstId
      let dataRow ← writeArtifact env
        (extractArgs caller att filename dataKey "extracted_data"
          "application/json"
          (.value (structuredOf filename plainText result)))
        caller.secondId
      emit .commit
      pure (.obj [("text_artifact_key", .str textRow.key),
        ("data_artifact_key", .str dataRow.key),
        ("source_file", .str filename),
        ("preview", .str (prefixOf 500 plainText))])

/-- `run_attachment_extraction`. -/
def runAttachmentExtraction (env : ToolEnv) (caller : Caller)
    (attachmentId : String) : ToolM Json := do
  let att ← query fun s =>
    resolveAttachment env s.t.db caller.sessionId attachmentId
  match att with
  | none =>
      pure (.obj [("error",
        .str ("attachment not found: " ++ attachmentId))])
  | some att => extractAttachment env caller att

-- ================================================================== images

/-- The findings, taken out of the vision envelope. -/
def unwrapped (members : List (String × Json)) : List (String × Json) :=
  match Json.getMember members "data" with
  | some (.obj inner) =>
      if ["summary", "entities", "raw"].any fun k =>
          (Json.getMember inner k).isSome then inner
      else members
  | _ => members

/-- The findings that `analyze_image` keeps. -/
def normalizedFindings (env : ToolEnv) (filename : String) (found : Json) :
    Json :=
  let members :=
    match found with
    | .obj members => unwrapped members
    | other => [("summary", .str (strOf env.rt other)),
        ("entities", .arr []), ("key_findings", .arr [])]
  let get := fun k default => (Json.getMember members k).getD default
  let members :=
    if (Json.getMember members "summary").isNone
        ∧ (Json.getMember members "raw").isSome then
      [("summary", .str (strOf env.rt (get "raw" (.str "")))),
        ("entities", get "entities" (.arr [])),
        ("key_findings", get "key_findings" (.arr []))]
    else members
  if (Json.getMember members "source_file").isSome then .obj members
  else .obj (members ++ [("source_file", .str filename)])

/-- `analyze_image`, once the attachment is found. -/
def analyzeAttachment (env : ToolEnv) (caller : Caller)
    (att : IngestionAttachment) : ToolM Json := do
  let filename := if att.name = "" then "image" else att.name
  let analysisKey := "image_analysis/" ++ filename
  let skipped ← skipIfArtifactExists env caller.sessionId analysisKey none
  match skipped with
  | some payload =>
      pure (.obj (payload ++ [("artifact_key", .str analysisKey),
        ("source_file", .str filename)]))
  | none => do
      let data ← rawBytes att
      let mime ← query fun s => (s.t.files att.id).mimeType
      let found ← attempt .extractor
        (env.vision data (orText mime "image/png") filename)
      let findings := normalizedFindings env filename found
      let row ← writeArtifact env
        (extractArgs caller att filename analysisKey "image_analysis"
          "application/json" (.value findings))
        caller.firstId
      emit .commit
      pure (.obj [("artifact_key", .str row.key),
        ("source_file", .str filename), ("findings", findings)])

/-- `analyze_image`. -/
def analyzeImage (env : ToolEnv) (caller : Caller)
    (attachmentId : String) : ToolM Json := do
  let att ← query fun s =>
    resolveAttachment env s.t.db caller.sessionId attachmentId
  match att with
  | none =>
      pure (.obj [("error",
        .str ("attachment not found: " ++ attachmentId))])
  | some att => analyzeAttachment env caller att

-- ================================================================== drafts

/-- The mailbox and the email of a session, by the joins of
`send_draft`. -/
def resolveMailbox (t : ToolDb) (sessionId : Uuid) :
    Option (Mailbox × EmailColumns) := do
  let item ← itemOf t.db sessionId
  let mailboxId ← (t.emails item.id).mailboxId
  let mailbox ← t.mailboxes.get mailboxId
  pure (mailbox, t.emails item.id)

/-- The draft handed to the provider. -/
def providerDraft (draft : Draft) (email : EmailColumns) : ProviderDraft :=
  { subject := draft.subject
    bodyText := draft.bodyText
    toAddrs := draft.toAddrs.getD []
    ccAddrs := draft.ccAddrs.getD []
    inReplyToMessageId :=
      match draft.inReplyToMessageId with
      | some id => if id = "" then email.providerMessageId else some id
      | none => email.providerMessageId }

/-- `update(Draft).where(id == …).values(status="sent")`. -/
def markSent (drafts : Table Draft) (id : Uuid) : Table Draft :=
  drafts.updateWhere (fun r => r.id = id)
    fun r => { r with status := "sent" }

/-- `with_decrypted`. -/
def decrypted (env : ToolEnv) (mailbox : Mailbox) :
    ToolM (Option Json) :=
  match mailbox.credentials with
  | none => pure none
  | some data =>
      if data = [] then pure none
      else do
        let credentials ← attempt .decrypt (env.decrypt data)
        pure (some credentials)

/-- `send_draft`, once the draft is read. -/
def sendRow (env : ToolEnv) (draft : Draft) : ToolM Json := do
  let found ← query fun s => resolveMailbox s.t draft.sessionId
  match found with
  | none =>
      pure (.obj [("error", .str "could not resolve mailbox for send")])
  | some (mailbox, email) => do
      let credentials ← decrypted env mailbox
      match env.adapters mailbox.provider with
      | none => throw (.unknownProvider mailbox.provider)
      | some adapter => do
          let handed := providerDraft draft email
          emit (.callProvider draft.id mailbox handed)
          let result ← attempt .adapter
            (adapter mailbox credentials handed)
          modify fun s =>
            { s with
              t := { s.t with drafts := markSent s.t.drafts draft.id } }
          emit (.markSent draft.id)
          emit .commit
          pure (.obj [("sent", .bool result.ok),
            ("provider_message_id", jsonText result.providerMessageId),
            ("error", jsonText result.error)])

/-- `send_draft`; it reads nothing of the state of its caller. -/
def sendDraft (env : ToolEnv) (draftId : String) : ToolM Json :=
  match parseUuid (.str draftId) with
  | none =>
      pure (.obj [("error",
        .str ("invalid draft_id: expected UUID, got " ++ env.repr draftId))])
  | some id => do
      let draft ← query fun s => s.t.drafts.get id
      match draft with
      | none => throw .noResultFound
      | some draft => sendRow env draft

end LegalBot.Tools
