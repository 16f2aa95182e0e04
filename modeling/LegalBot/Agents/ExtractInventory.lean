/-
`agents/extract_inventory.py`: the inventory of an email and of what was
extracted from its attachments, which the extract stage leaves under
`analysis/extracted`.

# Reading

`loadEmailForSession` follows the joins along their keys, from the session
to its job, the item and the email row of the item. Whether an artifact
exists is asked of `read_resolved`, within the session; a stored `null`
counts as missing, and an error other than `ArtifactNotFound` is passed
on.

# Rows

The rows of the attachments are kept as records until they become members
of the inventory. `seen_names` are the names of the thread's rows so far.

# The end of the stage

`finalizeNode` is the node of `agents/extract_graph.py` that ends the
extract stage. It builds the inventory from what the database and the
blob store hold and writes it where the next one is built from.
`Finalized` is what it leaves and the handoff it returns.
-/
import LegalBot.Agents.StageResult
import LegalBot.Artifacts.Column
import LegalBot.Memory.Extraction

namespace LegalBot.Inventory

open Json (getMember setMember truthy)
open Memory (Attributes contains getOr startsWith takeChars)

/-- `_CLASSIFICATION_FIELDS`. -/
def classificationFields : List String :=
  ["body_summary", "action_requested", "sender_trust", "deadline",
    "referenced_documents"]

/-- `_PREVIEW_MAX`. -/
def previewMax : Nat := 500

/-- `_FINDINGS_MAX`. -/
def findingsMax : Nat := 8

/-- `_ENTITIES_MAX`. -/
def entitiesMax : Nat := 12

-- =================================================================== email

/-- An attachment, as its row or as `load_email_for_session` returns
it. -/
structure Attachment where
  id : Uuid
  name : String
  mimeType : Option String
  size : Option Int
  deriving DecidableEq, Repr

/-- The email row of an item, with the columns of the item and its
attachments; `receivedAt` is the time's `isoformat()`. -/
structure EmailRow where
  providerMessageId : Option String
  providerThreadId : Option String
  fromAddr : Option String
  title : Option String
  receivedAt : Option String
  bodyText : Option String
  attachments : List Attachment
  deriving DecidableEq, Repr

/-- What an inventory is made from: `emails` are the columns that the
tables of the database leave out. -/
structure Sources where
  db : Db
  blobs : Blobs
  emails : Uuid → Option EmailRow

/-- What `load_email_for_session` returns. -/
structure SessionEmail where
  messageId : Option String
  threadId : Option String
  fromAddr : Option String
  subject : Option String
  receivedAt : Option String
  bodyText : String
  attachments : List Attachment
  deriving DecidableEq, Repr

/-- `load_email_for_session`; `none` is its error. -/
def loadEmailForSession (src : Sources) (sessionId : Uuid) :
    Option SessionEmail := do
  let session ← src.db.sessions.get sessionId
  let job ← src.db.jobs.get session.jobId
  let row ← src.emails job.ingestionItemId
  some
    { messageId := row.providerMessageId, threadId := row.providerThreadId
      fromAddr := row.fromAddr, subject := row.title
      receivedAt := row.receivedAt, bodyText := row.bodyText.getD ""
      attachments := row.attachments.map fun a =>
        { a with name := if a.name = "" then "attachment" else a.name } }

-- ================================================================= reading

section Reading

variable (rt : Runtime) (src : Sources)

/-- `_entity_names`. -/
def entityNames : Json → List String
  | .arr entities =>
      (entities.map fun ent =>
        match ent with
        | .obj d =>
            strip (strOf rt (getOr d "name" (getOr d "value" (.str ""))))
        | v => strip (strOf rt v)).filter (· ≠ "")
  | _ => []

/-- `_read_artifact_content`, with `thread_fallback=False`. -/
def readArtifactContent (sessionId : Uuid) (key : String) :
    Except ArtifactError (Option Content) :=
  match readResolved rt src.db src.blobs sessionId (.key key) none false
  with
  | .ok (_, .value .null) => .ok none
  | .ok (_, content) => .ok (some content)
  | .error e => if e.isNotFound then .ok none else .error e

/-- `str(mime or "").startswith("image/")`. -/
def isImage (mime : Option String) : Bool :=
  startsWith (mime.getD "") "image/"

/-- The artifacts that stand for an attachment. -/
structure ActiveKeys where
  data : Option String
  text : Option String
  image : Option String
  deriving DecidableEq, Repr

/-- There is one. -/
def ActiveKeys.ok (keys : ActiveKeys) : Bool :=
  keys.data.isSome || keys.text.isSome || keys.image.isSome

/-- Which of the three keys of an attachment are active. -/
def activeKeys (sessionId : Uuid) (name : String) (mime : Option String) :
    Except ArtifactError ActiveKeys := do
  let dataKey := "extracted_data/" ++ name
  let textKey := "extracted_text/" ++ name
  let imageKey := "image_analysis/" ++ name
  let dataContent ← readArtifactContent rt src sessionId dataKey
  let imageContent ← readArtifactContent rt src sessionId imageKey
  let textContent ← readArtifactContent rt src sessionId textKey
  if isImage mime then
    return { data := imageContent.map fun _ => imageKey, text := none
             image := imageContent.map fun _ => imageKey }
  else
    return { data := dataContent.map fun _ => dataKey
             text := textContent.map fun _ => textKey, image := none }

end Reading

-- ================================================================ previews

/-- What the inventory shows of an attachment. -/
structure Preview where
  contentSummary : String
  keyFindings : List String
  entitiesPreview : List String
  textChars : Nat
  extractionMethod : Option String
  extractionError : Option String
  deriving DecidableEq, Repr

def Preview.empty : Preview := ⟨"", [], [], 0, none, none⟩

/-- A text, or `None`. -/
def textOrNull (text : Option String) : Json :=
  match text with
  | some s => .str s
  | none => .null

/-- The members of a preview; `extraction_error` comes last. -/
def Preview.members (preview : Preview) : Attributes :=
  [("content_summary", .str preview.contentSummary),
    ("key_findings", .arr (preview.keyFindings.map .str)),
    ("entities_preview", .arr (preview.entitiesPreview.map .str)),
    ("text_chars", .int preview.textChars),
    ("extraction_method", textOrNull preview.extractionMethod)]
    ++ match preview.extractionError with
      | some error => [("extraction_error", .str error)]
      | none => []

section Previews

variable (rt : Runtime) (src : Sources)

/-- `str(v)`, if the value is truthy. -/
def strIf (v : Json) : Option String :=
  if truthy v then some (strOf rt v) else none

/-- What is shown of structured data. -/
def dataPreview (data : Attributes) : Preview :=
  { contentSummary :=
      takeChars previewMax (strOf rt (getOr data "summary" (.str "")))
    keyFindings :=
      match getOr data "key_findings" (.arr []) with
      | .arr findings => (findings.take findingsMax).map (strOf rt)
      | _ => []
    entitiesPreview :=
      (entityNames rt ((getMember data "entities").getD .null)).take
        entitiesMax
    textChars := 0
    extractionMethod :=
      strIf rt (getOr data "method" (getOr data "vision_skipped" .null))
    extractionError := strIf rt (getOr data "error" .null) }

/-- What is shown of a text besides. -/
def Preview.withText (preview : Preview) (text : String) : Preview :=
  { preview with
    textChars := text.length
    contentSummary :=
      if preview.contentSummary = "" ∧ strip text ≠ "" then
        takeChars previewMax (strip text)
      else preview.contentSummary }

/-- The preview of the structured artifact, if there is one. -/
def structuredPreview (sessionId : Uuid) (keys : ActiveKeys) :
    Except ArtifactError Preview :=
  match keys.data.or keys.image with
  | none => .ok Preview.empty
  | some key => do
      match ← readArtifactContent rt src sessionId key with
      | some (.value (.obj data)) => return dataPreview rt data
      | _ => return Preview.empty

/-- `_attachment_content_preview`. -/
def attachmentContentPreview (sessionId : Uuid) (keys : ActiveKeys) :
    Except ArtifactError Preview := do
  let preview ← structuredPreview rt src sessionId keys
  match keys.text with
  | none => return preview
  | some key => do
      match ← readArtifactContent rt src sessionId key with
      | some (.value (.str text)) => return preview.withText text
      | _ => return preview

end Previews

-- ==================================================================== rows

/-- The row of an attachment of the email. -/
structure Row where
  id : Uuid
  name : String
  mimeType : Option String
  size : Option Int
  keys : ActiveKeys
  preview : Preview
  deriving DecidableEq, Repr

/-- The three keys of a row. -/
def ActiveKeys.members (keys : ActiveKeys) : Attributes :=
  [("data_artifact_key", textOrNull keys.data),
    ("text_artifact_key", textOrNull keys.text),
    ("image_artifact_key", textOrNull keys.image)]

def Row.json (row : Row) : Json :=
  .obj ([("id", .str (toString row.id)), ("name", .str row.name),
      ("mime_type", textOrNull row.mimeType),
      ("size", match row.size with
        | some n => .int n
        | none => .null)]
    ++ row.keys.members
    ++ [("processed", .bool row.keys.ok),
      ("error", if row.keys.ok then .null else .str "not_extracted")]
    ++ row.preview.members)

/-- The row of an attachment of another message of the thread. -/
structure ThreadRow where
  name : String
  mimeType : Option String
  sourceSessionId : Uuid
  sourceSubject : Option String
  keys : ActiveKeys
  preview : Preview
  deriving DecidableEq, Repr

def ThreadRow.json (row : ThreadRow) : Json :=
  .obj ([("name", .str row.name), ("mime_type", textOrNull row.mimeType),
      ("source_session_id", .str (toString row.sourceSessionId)),
      ("source_subject", textOrNull row.sourceSubject)]
    ++ row.keys.members ++ [("readable", .bool row.keys.ok)]
    ++ row.preview.members)

section Rows

variable (rt : Runtime) (src : Sources)

/-- The row of one attachment. -/
def attachmentRow (sessionId : Uuid) (att : Attachment) :
    Except ArtifactError Row := do
  let keys ← activeKeys rt src sessionId att.name att.mimeType
  let preview ← attachmentContentPreview rt src sessionId keys
  return { id := att.id, name := att.name, mimeType := att.mimeType
           size := att.size, keys := keys, preview := preview }

/-- One attachment of a sibling. -/
def threadRow (sibling : Uuid) (subject : Option String)
    (rows : List ThreadRow) (att : Attachment) :
    Except ArtifactError (List ThreadRow) :=
  if ∃ row ∈ rows, row.name = att.name then .ok rows
  else do
    let keys ← activeKeys rt src sibling att.name att.mimeType
    let preview ← attachmentContentPreview rt src sibling keys
    return rows ++ [{ name := att.name, mimeType := att.mimeType
                      sourceSessionId := sibling, sourceSubject := subject
                      keys := keys, preview := preview }]

/-- `_collect_thread_attachment_rows`. -/
def collectThreadAttachmentRows (sessionId : Uuid)
    (emailThreadId : Option String) :
    Except ArtifactError (List ThreadRow) :=
  if emailThreadId.getD "" = "" then .ok []
  else
    (sessionIdsInEmailThread src.db sessionId).foldlM
      (fun rows sibling =>
        if sibling = sessionId then .ok rows
        else
          match loadEmailForSession src sibling with
          | none => .ok rows
          | some email =>
              email.attachments.foldlM
                (threadRow rt src sibling email.subject) rows) []

end Rows

-- =============================================================== inventory

section Building

variable (rt : Runtime) (src : Sources)

/-- `{**base, **extra}`. -/
def merged (base extra : Attributes) : Attributes :=
  extra.foldl (fun d m => setMember d m.1 m.2) base

/-- `_classification_from_existing`. -/
def classificationFromExisting (existing : Attributes) : Attributes :=
  classificationFields.filterMap fun field =>
    match getMember existing field with
    | none | some .null => none
    | some v => some (field, v)

/-- `str(inventory.get(field) or "").strip()`. -/
def inventoryText (inventory : Attributes) (field : String) : String :=
  strip (strOf rt (getOr inventory field (.str "")))

/-- The line of an attachment. -/
def Row.overview (row : Row) : String :=
  let summary := strip row.preview.contentSummary
  if row.keys.ok then
    "  - " ++ row.name ++ ":"
      ++ (if summary = "" then "" else " " ++ takeChars 200 summary)
      ++ (if row.preview.entitiesPreview = [] then "" else " [entities: "
        ++ ", ".intercalate (row.preview.entitiesPreview.take 5) ++ "]")
      ++ (if row.preview.keyFindings = [] then "" else " [findings: "
        ++ toString row.preview.keyFindings.length ++ "]")
      ++ (if row.preview.textChars = 0 then "" else " [text: "
        ++ toString row.preview.textChars ++ " chars]")
  else "  - " ++ row.name ++ ": not processed (not_extracted)"

/-- The line of an attachment of the thread. -/
def ThreadRow.overview (row : ThreadRow) : String :=
  let summary := strip row.preview.contentSummary
  if row.keys.ok then
    "  - " ++ row.name ++ ":"
      ++ (match row.keys.data.or row.keys.text with
        | some key => " read via " ++ String.singleton (Char.ofNat 0x60)
          ++ key ++ String.singleton (Char.ofNat 0x60)
        | none => "")
      ++ (if summary = "" then "" else " " ++ takeChars 200 summary)
  else "  - " ++ row.name ++ ": not extracted in thread"

/-- `_build_provided_overview`. -/
def buildProvidedOverview (inventory : Attributes) (rows : List Row)
    (threadRows : List ThreadRow) : String :=
  let field := inventoryText rt inventory
  let labelled := fun (label text : String) =>
    if text = "" then [] else [label ++ text]
  "\n".intercalate
    (labelled "Subject: " (field "subject")
      ++ labelled "From: " (field "from_addr")
      ++ (if field "body_summary" ≠ "" then
          ["Email: " ++ field "body_summary"]
        else labelled "Email preview: "
          (takeChars 300 (field "body_preview")))
      ++ labelled "Sender request type: " (field "action_requested")
      ++ (if rows = [] then ["Attachments: none"]
        else ("Attachments: " ++ toString rows.length ++ " file(s)")
          :: rows.map Row.overview)
      ++ (match strIf rt (getOr inventory "referenced_documents" .null) with
        | some referenced => ["Referenced in email: " ++ referenced]
        | none => [])
      ++ (if threadRows = [] then []
        else "Attachments from other messages in this email thread:"
          :: threadRows.map ThreadRow.overview))

/-- What was classified before, and what the caller gives. -/
def existingClassification (sessionId : Uuid)
    (classification : Attributes) : Except ArtifactError Attributes :=
  match read rt src.db.artifacts.rows src.blobs sessionId
    (.key "analysis/extracted") none with
  | .ok (_, .value (.obj existing)) =>
      .ok (merged (classificationFromExisting existing) classification)
  | .ok _ => .ok classification
  | .error e => if e.isNotFound then .ok classification else .error e

/-- The inventory before its attachments. -/
def inventoryHead (email : SessionEmail) (classification : Attributes) :
    Attributes :=
  let inventory := merged
    [("subject", textOrNull email.subject),
      ("from_addr", textOrNull email.fromAddr),
      ("received_at", textOrNull email.receivedAt),
      ("body_preview", .str (takeChars previewMax email.bodyText)),
      ("body_chars", .int email.bodyText.length),
      ("message_id", textOrNull email.messageId),
      ("thread_id", textOrNull email.threadId),
      ("attachment_count", .int email.attachments.length)] classification
  if ¬ truthy (getOr inventory "body_summary" .null)
      ∧ strip email.bodyText ≠ "" then
    setMember inventory "body_summary"
      (.str (takeChars 280 (strip email.bodyText)))
  else inventory

/-- `build_extract_inventory`. -/
def buildExtractInventory (sessionId : Uuid)
    (classification : Attributes) : Except ArtifactError Attributes :=
  match loadEmailForSession src sessionId with
  | none => .ok [("error", .str "no email bound to this session")]
  | some email => do
      let classification ←
        existingClassification rt src sessionId classification
      let rows ← email.attachments.mapM (attachmentRow rt src sessionId)
      let inventory := setMember (inventoryHead email classification)
        "attachments" (.arr (rows.map Row.json))
      let inventory := setMember inventory "attachments_processed"
        (.int (rows.countP (·.keys.ok)))
      let inventory := setMember inventory "attachments_failed"
        (.int (rows.countP fun row => ¬ row.keys.ok))
      let threadRows ← collectThreadAttachmentRows rt src sessionId
        email.threadId
      let inventory := setMember inventory "thread_attachments"
        (.arr (threadRows.map ThreadRow.json))
      return setMember inventory "provided_overview"
        (.str (buildProvidedOverview rt inventory rows threadRows))

end Building

-- ================================================================= finalize

open Relational (Table)
open Stages (StageResult artifactKeysFromMessages buildStageResult sorted)

/-- What `write_extract_inventory` has `write` do. -/
def inventoryWrite (sessionId : Uuid) (runId : Option Uuid)
    (inventory : Attributes) : WriteArgs :=
  { sessionId := sessionId, key := "analysis/extracted"
    content := .value (.obj inventory), kind := "analysis"
    producer := "extract", runId := runId, mime := "application/json"
    metadata := none, createdBy := none }

/-- `write_extract_inventory`. -/
def writeExtractInventory (rt : Runtime) (svc : ArtifactService)
    (artifacts : Table Artifact) (blobs : Blobs) (sessionId : Uuid)
    (runId : Option Uuid) (inventory : Attributes) (id : Uuid) :
    Except ArtifactError (String × Table Artifact × Blobs) := do
  let (row, artifacts, blobs) ← write rt svc artifacts blobs
    (inventoryWrite sessionId runId inventory) id
  return (row.ref.key, artifacts, blobs)

/-- `build_extract_stage_result`. -/
def buildExtractStageResult (floatRepr : String → String)
    (messages : List Stages.Message) : StageResult :=
  { buildStageResult floatRepr messages "extract"
      (some ["analysis/extracted"]) (some "analyze") with
    artifactKeys := sorted (artifactKeysFromMessages floatRepr messages
      ∪ {"analysis/extracted"})
    primaryArtifactKey := some "analysis/extracted" }

/-- What a run of `finalize_node` leaves and returns. -/
structure Finalized where
  inventory : Attributes
  artifacts : Table Artifact
  blobs : Blobs
  stageResult : StageResult

/-- `finalize_node`, of a state with these messages; `id` is the uuid4
that `write` draws. -/
def finalizeNode (rt : Runtime) (floatRepr : String → String)
    (svc : ArtifactService) (src : Sources) (messages : List Stages.Message)
    (sessionId : Uuid) (runId : Option Uuid) (id : Uuid) :
    Except ArtifactError Finalized := do
  let inventory ← buildExtractInventory rt src sessionId []
  let stageResult := buildExtractStageResult floatRepr messages
  let error := getOr inventory "error" .null
  if truthy error then
    return { inventory := inventory, artifacts := src.db.artifacts
             blobs := src.blobs
             stageResult := { stageResult with
               summary := strOf rt error, primaryArtifactKey := none } }
  else
    let (_, artifacts, blobs) ← writeExtractInventory rt svc
      src.db.artifacts src.blobs sessionId runId inventory id
    return { inventory := inventory, artifacts := artifacts
             blobs := blobs, stageResult := stageResult }

/-- What the next build reads: the store that was committed, as the
database returns it. -/
def Sources.saved (column : JsonbColumn) (src : Sources)
    (done : Finalized) : Sources :=
  { src with
    db := { src.db with
      artifacts := done.artifacts.updateWhere (fun _ => true)
        (Artifact.stored column) }
    blobs := done.blobs }

end LegalBot.Inventory
