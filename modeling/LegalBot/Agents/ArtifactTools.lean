/-
`agents/tools/artifact_tools.py` and `artifacts/read_policy.py`, and
`write_draft` of `agents/tools/domain.py`.

# Outputs

A tool returns a value (`.json`), or a dict that `json.dumps` does not
take, since it has bytes in it; of that one the tool message has the
`str` (`.text`).

`read_artifact` answers any exception of the read with `not_found`; so
does its model, of whatever `readResolved` raises.
-/
import LegalBot.Agents.Domain
import LegalBot.Contracts.Registry

namespace LegalBot.Tools

-- =================================================================== outputs

/-- What a tool returns. -/
inductive ToolOutput where
  | json (v : Json)
  | text (s : String)
  deriving DecidableEq, Repr

/-- The values of `ArtifactStorage`. -/
def storageText : ArtifactStorage → String
  | .inline => "inline"
  | .blob => "blob"

/-- `_ref_to_dict`. -/
def refToDict (ref : ArtifactRef) : Json :=
  .obj [("id", .str (toString ref.id)), ("key", .str ref.key),
    ("version", .int ref.version), ("kind", .str ref.kind),
    ("mime", .str ref.mime), ("size_bytes", .int ref.sizeBytes),
    ("storage", .str (storageText ref.storage)),
    ("summary", ref.summary.getD .null)]

/-- `dict(metadata or {})`, with the summary. -/
def metaWith (summary : Option String)
    (metadata : Option (List (String × Json))) : List (String × Json) :=
  match summary with
  | some text => Json.setMember (metadata.getD []) "summary" (.str text)
  | none => metadata.getD []

-- ================================================================== writing

/-- What the model passes to `write_artifact` and `update_artifact`. -/
structure ArtifactInput where
  key : String
  content : Json
  kind : String
  mime : String
  summary : Option String
  metadata : Option (List (String × Json))

/-- `write_artifact`. -/
def writeArtifactTool (env : ToolEnv) (caller : Caller)
    (input : ArtifactInput) : ToolM ToolOutput := do
  let row ← writeArtifact env
    { sessionId := caller.sessionId, key := input.key
      content := .value input.content, kind := input.kind
      producer := "agent", runId := caller.runId, mime := input.mime
      metadata := some (metaWith input.summary input.metadata)
      createdBy := none }
    caller.firstId
  emit .commit
  pure (.json (refToDict row.ref))

/-- `merge` as `update` compares it. -/
def mergeMode (merge : String) : MergeMode :=
  if merge = "json_merge_patch" then .jsonMergePatch
  else if merge = "json_patch" then .jsonPatch
  else .replace

/-- `ArtifactService.update`, in the transaction of the call. -/
def updateArtifact (env : ToolEnv) (args : UpdateArgs) (id : Uuid) :
    ToolM Artifact := do
  let current ← query fun s =>
    read env.rt s.t.db.artifacts.rows s.blobs args.sessionId
      (.key args.key) none
  match updateFrom env.rt args current with
  | .error e => throw (.artifact e)
  | .ok (writeArgs, _, _) => writeArtifact env writeArgs id

/-- `update_artifact`. -/
def updateArtifactTool (env : ToolEnv) (caller : Caller)
    (input : ArtifactInput) (merge : String) : ToolM ToolOutput := do
  let row ← updateArtifact env
    { sessionId := caller.sessionId, key := input.key
      patchOrContent := .value input.content, merge := mergeMode merge
      runId := caller.runId, producer := "agent", kind := some input.kind
      mime := input.mime
      metadata := some (metaWith input.summary input.metadata)
      createdBy := none }
    caller.firstId
  emit .commit
  pure (.json (refToDict row.ref))

-- ================================================================== reading

/-- The members that stay of a dict that is too large. -/
def slimFields : List String :=
  ["summary", "body_summary", "intention", "action", "action_payload",
    "research", "missing_information", "confidence", "blockers",
    "relevant_resources", "user_input", "entities", "key_findings",
    "source_file", "status", "missing_fields", "artifact_key",
    "field_values", "provided_overview", "body_preview", "body_chars",
    "content_summary", "entities_preview", "attachments_processed",
    "attachments_failed", "attachment_count", "sender_trust", "deadline",
    "referenced_documents"]

def slimHint (maxBytes : Nat) : String :=
  "Full artifact exceeds " ++ toString maxBytes
    ++ " bytes; use list_artifacts or read specific extracted_data/* keys."

/-- `maybe_summarize_artifact_content`. -/
def maybeSummarizeArtifactContent (maxBytes : Nat) :
    Content → Content × Bool
  | .value (.obj members) =>
      let serialized := Json.dumps (.obj members)
      if (Json.encodeUtf8 serialized).length ≤ maxBytes then
        (.value (.obj members), false)
      else
        let slim := slimFields.filterMap fun field =>
          (Json.getMember members field).map fun v => (field, v)
        if slim ≠ [] then
          (.value (.obj (slim ++ [("_truncated", .bool true),
            ("_hint", .str (slimHint maxBytes))])), true)
        else
          (.value (.obj [("_truncated", .bool true),
            ("preview", .str (prefixOf maxBytes serialized))]), true)
  | .value (.str text) =>
      if (Json.encodeUtf8 text).length ≤ maxBytes then
        (.value (.str text), false)
      else
        (.value (.str (prefixOf maxBytes text ++ "\n… [truncated]")), true)
  | .bytes data =>
      if data.length ≤ maxBytes then (.bytes data, false)
      else
        (.value (.str ("[binary truncated, " ++ toString data.length
          ++ " bytes total]")), true)
  | content => (content, false)

/-- The members of a read that come after the content. -/
def readTail (sessionId : Uuid) (row : Artifact) (truncated : Bool) :
    List (String × Json) :=
  [("metadata", row.metadata)]
    ++ (if row.sessionId ≠ sessionId then
        [("resolved_from_session", .str (toString row.sessionId))] else [])
    ++ if truncated then [("truncated", .bool true)] else []

/-- What `read_artifact` returns for the row it found. -/
def readOutput (env : ToolEnv) (maxBytes : Nat) (sessionId : Uuid)
    (row : Artifact) (content : Content) : ToolOutput :=
  let head := [("version", .int row.version), ("kind", .str row.kind)]
  match maybeSummarizeArtifactContent maxBytes content with
  | (.value v, truncated) =>
      .json (.obj (("key", .str row.key) :: head ++ [("content", v)]
        ++ readTail sessionId row truncated))
  | (.bytes data, truncated) =>
      .text ("\x7b'key': " ++ env.repr row.key ++ ", "
        ++ Json.reprMembers env.repr head ++ ", 'content': "
        ++ env.str (.bytes data) ++ ", "
        ++ Json.reprMembers env.repr (readTail sessionId row truncated)
        ++ "\x7d")

/-- No artifact has a negative version. -/
def versionOf : Option Int → Option (Option Nat)
  | none => some none
  | some v => if v < 0 then none else some (some v.toNat)

/-- What a read that raised is answered with. -/
def notFoundOutput (key : String) : ToolOutput :=
  .json (.obj [("error", .str "not_found"), ("key", .str key)])

/-- `read_artifact`. -/
def readArtifactTool (env : ToolEnv) (maxBytes : Nat) (caller : Caller)
    (key : String) (version : Option Int) : ToolM ToolOutput :=
  query fun s =>
    match versionOf version with
    | none => notFoundOutput key
    | some version =>
        match readResolved env.rt s.t.db s.blobs caller.sessionId
            (.key key) version true with
        | .ok (row, content) =>
            readOutput env maxBytes caller.sessionId row content
        | .error _ => notFoundOutput key

/-- `ArtifactService.list`, of the latest versions. -/
def listArtifacts (rows : List Artifact) (sessionId : Uuid) :
    List Artifact :=
  (rows.filter fun r => r.sessionId = sessionId ∧ r.isLatest).insertionSort
    fun r r' => r.key ≤ r'.key

/-- `not key_prefix or r.key.startswith(key_prefix)`. -/
def listed (keyPrefix : Option String) (r : Artifact) : Bool :=
  match keyPrefix with
  | some p => p.toList.isPrefixOf r.key.toList
  | none => true

/-- An entry of `list_artifacts`. -/
def listEntry (r : Artifact) : Json :=
  .obj [("id", .str (toString r.id)), ("key", .str r.key),
    ("version", .int r.version), ("kind", .str r.kind),
    ("mime", .str r.mime), ("size_bytes", .int r.sizeBytes),
    ("storage", .str (storageText r.storage))]

/-- `list_artifacts`. -/
def listArtifactsTool (caller : Caller) (keyPrefix : Option String) :
    ToolM ToolOutput :=
  query fun s => .json (.arr
    (((listArtifacts s.t.db.artifacts.rows caller.sessionId).filter
      (listed keyPrefix)).map listEntry))

-- =================================================================== drafts

/-- What the model passes to `write_draft`. -/
structure DraftInput where
  subject : String
  bodyText : String
  toAddrs : List String
  inReplyToMessageId : Option String

/-- What `write_draft` hands to `write`. -/
def replyArgs (caller : Caller) (input : DraftInput) : WriteArgs :=
  { sessionId := caller.sessionId
    key := "drafts/reply"
    content := .value (.obj [("subject", .str input.subject),
      ("body_text", .str input.bodyText),
      ("to_addrs", .arr (input.toAddrs.map .str)),
      ("in_reply_to_message_id", jsonText input.inReplyToMessageId)])
    kind := "draft"
    producer := "agent"
    runId := caller.runId
    mime := "application/json"
    metadata := some [("subject", .str input.subject)]
    createdBy := none }

/-- The insert of the `draft` row. -/
def insertDraft (draft : Draft) : ToolM Unit := do
  let s ← get
  match s.t.drafts.insert draft with
  | none => throw (.artifact .integrityError)
  | some drafts => set { s with t := { s.t with drafts := drafts } }

/-- `write_draft`. -/
def writeDraft (env : ToolEnv) (caller : Caller) (input : DraftInput) :
    ToolM ToolOutput := do
  let found ← query fun s => s.t.db.sessions.get caller.sessionId
  match found with
  | none => throw .noResultFound
  | some session => do
      let row ← writeArtifact env (replyArgs caller input) caller.firstId
      insertDraft
        { id := caller.secondId, jobId := session.jobId
          sessionId := caller.sessionId, runId := caller.runId
          artifactId := row.id, subject := some input.subject
          bodyText := some input.bodyText, toAddrs := some input.toAddrs
          ccAddrs := none, inReplyToMessageId := input.inReplyToMessageId
          status := "drafted" }
      emit .commit
      pure (.json (.obj [("draft_id", .str (toString caller.secondId)),
        ("artifact_id", .str (toString row.id)),
        ("artifact_key", .str row.key)]))

end LegalBot.Tools
