/-
`KnowledgeGraphService` (`memory/service.py`): indexing an ingestion
item, indexing a run, resolving a projected entity.

# What is indexed

`Sources` are the rows the service reads: items with the detail row and
the attachments that hang on them, runs, jobs, and the artifacts with
their blobs. No method writes them.

# Transactions

A method is a program on the graph. `GraphState.step` runs it as its
task does: what a call that returns has written is committed, also when
it returns a refusal, and a call that raises leaves the graph as it was.
The sources change in between (`IndexAction.store`).
-/
import LegalBot.Lib.System
import LegalBot.Memory.Graph
import Mathlib.Data.List.MinMax

namespace LegalBot.Memory

open Relational (HasKey Table)

-- ================================================================= sources

/-- `ingestion_attachment`. -/
structure IngestionAttachment where
  id : Uuid
  name : String
  mimeType : Option String
  size : Option Int
  deriving DecidableEq

/-- `email_metadata`. -/
structure EmailMetadata where
  providerMessageId : Option String
  providerThreadId : Option String
  fromAddr : Option String
  toAddrs : List String
  ccAddrs : List String
  inReplyTo : Option String
  references : List String
  deriving DecidableEq

/-- `ingestion_item`, with the rows keyed by it. -/
structure IngestionItem where
  id : Uuid
  externalId : String
  title : Option String
  bodyText : Option String
  ingestedAt : Time
  ownerUserId : String
  emailMetadata : Option EmailMetadata
  attachments : List IngestionAttachment
  deriving DecidableEq

instance : HasKey IngestionItem Uuid := ⟨IngestionItem.id⟩

/-- The rows the service reads. -/
structure Sources where
  items : Table IngestionItem
  runs : Table Run
  jobs : Table ProcessingJob
  artifacts : List Artifact
  blobs : Blobs

/-- No rows. -/
def Sources.empty : Sources := ⟨.empty, .empty, .empty, [], fun _ => none⟩

-- ================================================================= parents

/-- `item.title or f"Email {item.id}"`. -/
def IngestionItem.emailName (item : IngestionItem) : String :=
  let title := item.title.getD ""
  if title = "" then "Email " ++ toString item.id else title

/-- An optional text as an attribute. -/
def textAttr (text : Option String) : Json :=
  match text with
  | some text => .str text
  | none => .null

/-- The key of the entity of an item. -/
def IngestionItem.emailKey (item : IngestionItem) : EntityKey :=
  ⟨item.ownerUserId, .email, ingestionItemCanonicalKey item.id⟩

/-- `candidates` of `_resolve_parent_email`. -/
def replyCandidates (detail : EmailMetadata) : List String :=
  let inReplyTo := detail.inReplyTo.getD ""
  let candidates := if inReplyTo = "" then [] else [strip inReplyTo]
  detail.references.foldl (fun candidates ref =>
    let ref := strip ref
    if ref ≠ "" ∧ ref ∉ candidates then candidates ++ [ref]
    else candidates) candidates

/-- `_find_item_by_message_ref`. -/
def findItemByMessageRef (src : Sources) (owner ref : String) :
    Except GraphError (Option IngestionItem) := do
  if ref = "" then return none
  match ← scalarOneOrNone (src.items.rows.filter fun item =>
      item.ownerUserId = owner
        ∧ item.emailMetadata.bind (·.providerMessageId) = some ref) with
  | some item => return some item
  | none => scalarOneOrNone (src.items.rows.filter fun item =>
      item.ownerUserId = owner ∧ item.externalId = ref)

/-- The first candidate that some item has. -/
def findReplied (src : Sources) (owner : String) :
    List String → Except GraphError (Option IngestionItem)
  | [] => return none
  | ref :: rest => do
      match ← findItemByMessageRef src owner ref with
      | some item => return some item
      | none => findReplied src owner rest

/-- The thread fallback: the first item of the thread that is not the
item itself. -/
def threadParent (src : Sources) (item : IngestionItem)
    (detail : EmailMetadata) : Option IngestionItem :=
  let thread := detail.providerThreadId.getD ""
  if thread = "" then none
  else
    -- the order is named: other orders on `Int` are not computable
    @List.argmin _ Time Int.instLinearOrder.toPartialOrder.toPreorder
      Int.decLt (·.ingestedAt) (src.items.rows.filter fun other =>
        other.ownerUserId = item.ownerUserId
          ∧ other.emailMetadata.bind (·.providerThreadId) = some thread
          ∧ other.id ≠ item.id)

/-- The item `_resolve_parent_email` upserts an entity for. -/
def parentItem (src : Sources) (item : IngestionItem) :
    Except GraphError (Option IngestionItem) :=
  match item.emailMetadata with
  | none => return none
  | some detail => do
      match ← findReplied src item.ownerUserId (replyCandidates detail) with
      | some parent => return some parent
      | none => return threadParent src item detail

-- =================================================================== items

/-- `email_attrs`. -/
def IngestionItem.emailAttrs (item : IngestionItem) : Attributes :=
  let body := item.bodyText.getD ""
  [("subject", textAttr item.title),
    ("body_preview",
      if body = "" then .null else .str (takeChars 500 body))] ++
    match item.emailMetadata with
    | none => []
    | some detail =>
        [("from_addr", textAttr detail.fromAddr),
          ("provider_message_id", textAttr detail.providerMessageId),
          ("provider_thread_id", textAttr detail.providerThreadId)]

/-- The attributes `_resolve_parent_email` gives the entity of a
parent. -/
def IngestionItem.stubAttrs (item : IngestionItem) : Attributes :=
  [("subject", textAttr item.title)]

section Items

variable (env : GraphEnv)

/-- An edge of `index_ingestion_item`. -/
def itemEdge (item : IngestionItem) (srcId dstId : Uuid)
    (relation : Relation) (attributes : Attributes) : KgEdge :=
  { ownerUserId := item.ownerUserId, srcId := srcId, dstId := dstId
    relation := relation, attributes := attributes, confidence := 1
    origin := "deterministic", sourceType := .ingestionItem
    sourceId := item.id }

/-- `_upsert_person_from_addr`. -/
def upsertPersonFromAddr (owner rawAddr : String) (sourceId : Uuid) :
    GraphM (Option KgEntity) :=
  match parseEmailAddress env.texts rawAddr with
  | (display, email) => do
      if email = "" then return none
      let name := personCanonicalName display email
      let person ← upsertEntity env
        ⟨owner, .person, personCanonicalKey env.texts email⟩ name
        [("email", .str email), ("display_name", textAttr display)]
        (some name)
      addMention
        { entityId := person.id, ownerUserId := owner
          sourceType := .ingestionItem, sourceId := sourceId
          snippet := some (strip rawAddr), confidence := 1 }
      return some person

/-- A person of the message and the edge to it. -/
def indexPerson (item : IngestionItem) (emailId : Uuid)
    (relation : Relation) (attributes : Attributes) (rawAddr : String) :
    GraphM Unit := do
  match ← upsertPersonFromAddr env item.ownerUserId rawAddr item.id with
  | none => pure ()
  | some person =>
      addEdge env (itemEdge item emailId person.id relation attributes)

/-- The sender, if the message has one. -/
def indexSender (item : IngestionItem) (emailId : Uuid)
    (fromAddr : Option String) : GraphM Unit :=
  if fromAddr.getD "" = "" then pure ()
  else indexPerson env item emailId .sentBy [] (fromAddr.getD "")

/-- The persons of the message. -/
def indexPersons (item : IngestionItem) (emailId : Uuid) : GraphM Unit :=
  match item.emailMetadata with
  | none => pure ()
  | some detail => do
      indexSender env item emailId detail.fromAddr
      detail.toAddrs.forM (indexPerson env item emailId .sentTo [])
      detail.ccAddrs.forM (indexPerson env item emailId .sentTo
        [("addr_kind", .str "cc")])

/-- The key of the entity of an attachment. -/
def attachmentKey (item : IngestionItem) (att : IngestionAttachment) :
    EntityKey :=
  ⟨item.ownerUserId, .attachment, ingestionAttachmentCanonicalKey att.id⟩

/-- One attachment. -/
def indexAttachment (item : IngestionItem) (emailId : Uuid)
    (att : IngestionAttachment) : GraphM Unit := do
  let entity ← upsertEntity env (attachmentKey item att) att.name
    [("mime_type", textAttr att.mimeType),
      ("size", (att.size.map Json.int).getD .null),
      ("ingestion_item_id", .str (toString item.id))] none
  addMention
    { entityId := entity.id, ownerUserId := item.ownerUserId
      sourceType := .ingestionAttachment, sourceId := att.id
      snippet := some att.name, confidence := 1 }
  addEdge env (itemEdge item entity.id emailId .attachedTo [])

/-- `_resolve_parent_email`. -/
def resolveParentEmail (src : Sources) (item : IngestionItem) :
    GraphM (Option KgEntity) := do
  match ← parentItem src item with
  | none => return none
  | some parent =>
      -- the parent was found among the items of the same owner
      let row ← upsertEntity env
        ⟨item.ownerUserId, .email, ingestionItemCanonicalKey parent.id⟩
        parent.emailName parent.stubAttrs none
      return some row

/-- The edge to the parent. -/
def indexParent (src : Sources) (item : IngestionItem) (emailId : Uuid) :
    GraphM Unit := do
  match ← resolveParentEmail env src item with
  | none => pure ()
  | some parent =>
      if parent.id ≠ emailId then
        addEdge env (itemEdge item emailId parent.id .repliesTo [])

/-- What a call returns. -/
inductive IndexResult where
  | refused (reason : String)
  | item (itemId emailEntityId : Uuid)
  | run (runId itemId : Uuid) (entitiesUpserted edgesAdded : Nat)
  deriving DecidableEq

/-- `index_ingestion_item`, past its first query. -/
def indexItem (src : Sources) (item : IngestionItem) : GraphM IndexResult :=
  do
    let email ← upsertEntity env item.emailKey item.emailName
      item.emailAttrs none
    addMention
      { entityId := email.id, ownerUserId := item.ownerUserId
        sourceType := .ingestionItem, sourceId := item.id
        snippet := item.title, confidence := 1 }
    indexPersons env item email.id
    item.attachments.forM (indexAttachment env item email.id)
    indexParent env src item email.id
    return .item item.id email.id

/-- `index_ingestion_item`. -/
def indexIngestionItem (src : Sources) (itemId : Uuid) :
    GraphM IndexResult :=
  match src.items.get itemId with
  | none => pure (.refused "not_found")
  | some item => indexItem env src item

end Items

-- ============================================================== resolution

section Resolution

variable (env : GraphEnv)

/-- The candidates of a fuzzy match: the rows of the type, among the
five best, that reach the threshold. -/
def typedMatches (g : Graph) (k : EntityKey) (name : String) :
    List EntityHit :=
  (searchEntities env g k.ownerUserId name 5).filter fun m =>
    m.type = k.type ∧ env.mergeTrgmThreshold ≤ m.score

/-- What the fuzzy match makes of a graph: the hit it merges into. -/
def fuzzyMatch (g : Graph) (k : EntityKey) (name : String) :
    Option EntityHit :=
  if env.postgres ∧ strip name ≠ "" then
    match typedMatches env g k name with
    | [m] => some m
    | _ => none
  else none

/-- `resolve_entity`. -/
def resolveEntity (k : EntityKey) (name : String) (aliases : List String)
    (attributes : Attributes) : GraphM KgEntity := do
  match ← scalarOneOrNone ((← get).withKey k) with
  | some existing => return existing
  | none =>
      match fuzzyMatch env (← get) k name with
      | some m =>
          let resolved ← scalarOne
            ((← get).entities.filter fun e => e.id = m.id)
          upsertAliasIf env resolved.id name
          aliases.forM (upsertAliasIf env resolved.id)
          return resolved
      | none => upsertEntity env k name attributes (some name)

/-- The key a projected entity is resolved by. -/
def ProjectionEntity.entityKey (owner : String) (p : ProjectionEntity) :
    EntityKey := ⟨owner, p.entityType, p.canonicalKey⟩

/-- One round of the first loop of `_apply_projection`: the entity with
the row it is resolved to. -/
def applyEntity (owner : String) (runId itemId : Uuid)
    (p : ProjectionEntity) : GraphM (ProjectionEntity × KgEntity) := do
  let row ← resolveEntity env (p.entityKey owner) p.canonicalName
    p.aliases p.attributes
  addMention
    { entityId := row.id, ownerUserId := owner, sourceType := .run
      sourceId := runId, snippet := p.snippet, confidence := p.confidence }
  addMention
    { entityId := row.id, ownerUserId := owner
      sourceType := .ingestionItem, sourceId := itemId
      snippet := p.snippet, confidence := p.confidence }
  return (p, row)

/-- `key_to_entity.get`: the last entity assigned under a type and
key. -/
def lookupEntity (resolved : List (ProjectionEntity × KgEntity))
    (type : EntityType) (key : String) : Option KgEntity :=
  (resolved.reverse.find? fun r => r.1.entityType = type
    ∧ r.1.canonicalKey = key).map (·.2)

/-- `filename_key[len(prefix):]`, after `startswith(prefix)`. -/
def filenameOf (srcKey : String) : Option String :=
  if startsWith srcKey "__attachment__:" then
    some (String.ofList (srcKey.toList.drop "__attachment__:".length))
  else none

/-- `_resolve_attachment_entity`. -/
def resolveAttachmentEntity (owner : String) (item : IngestionItem)
    (normalized : String) : GraphM (Option KgEntity) := do
  match item.attachments.find? fun att =>
      normalizeName env.texts att.name = normalized with
  | none => return none
  | some att => scalarOneOrNone ((← get).withOwnerKey owner
      (ingestionAttachmentCanonicalKey att.id))

/-- The source of a projected edge. -/
def edgeSource (owner : String) (item : IngestionItem)
    (email : KgEntity) (resolved : List (ProjectionEntity × KgEntity))
    (edge : ProjectionEdge) : GraphM (Option KgEntity) :=
  if edge.srcType = .email ∧ edge.srcKey = emailSrcKey then
    pure (some email)
  else
    match edge.srcType, filenameOf edge.srcKey with
    | .attachment, some normalized =>
        resolveAttachmentEntity env owner item normalized
    | _, _ => pure (lookupEntity resolved edge.srcType edge.srcKey)

/-- `if src_entity is None or dst_entity is None: continue`, else the
edge. -/
def addProjectedEdge (owner : String) (runId : Uuid)
    (edge : ProjectionEdge) : Option KgEntity → Option KgEntity →
    GraphM Bool
  | some src, some dst => do
      addEdge env
        { ownerUserId := owner, srcId := src.id, dstId := dst.id
          relation := edge.relation, attributes := edge.attributes
          confidence := edge.confidence, origin := edge.origin
          sourceType := .run, sourceId := runId }
      return true
  | _, _ => return false

/-- One round of the second loop: whether an edge was added. -/
def applyEdge (owner : String) (runId : Uuid) (item : IngestionItem)
    (email : KgEntity) (resolved : List (ProjectionEntity × KgEntity))
    (edge : ProjectionEdge) : GraphM Bool := do
  let src ← edgeSource env owner item email resolved edge
  addProjectedEdge env owner runId edge src
    (lookupEntity resolved edge.dstType edge.dstKey)

/-- `_apply_projection` of a run: the resolved entities, and how many
edges were added. -/
def applyProjection (owner : String) (projection : GraphProjection)
    (email : KgEntity) (runId : Uuid) (item : IngestionItem) :
    GraphM (List (ProjectionEntity × KgEntity) × Nat) := do
  let resolved ←
    projection.entities.mapM (applyEntity env owner runId item.id)
  let added ← projection.edges.mapM
    (applyEdge env owner runId item email resolved)
  return (resolved, added.count true)

end Resolution

-- ==================================================================== runs

section Runs

variable (env : GraphEnv)

/-- The content a bundle has for a row, if it has any. -/
def bundleContent (blobs : Blobs) (row : Artifact) :
    Except GraphError (Option Json) :=
  match row.storage with
  | .inline => .ok (some (row.contentInline.getD .null))
  | .blob =>
      let ref := row.blobRef.getD ""
      if row.mime = "application/json" ∧ ref ≠ "" then
        match blobs ref with
        | none => .error .fileNotFound
        | some data =>
            match env.rt.loads data with
            | none => .error .decodeError
            | some content => .ok (some content)
      else .ok none

/-- `_load_session_artifacts`. -/
def loadSessionArtifacts (src : Sources) (sessionId : Uuid) :
    Except GraphError Attributes :=
  (src.artifacts.filter fun row => row.sessionId = sessionId
    ∧ row.isLatest).foldlM (fun bundle row => do
      match ← bundleContent env src.blobs row with
      | none => return bundle
      | some content => return Json.setMember bundle row.key content) []

/-- The projection of a run. -/
def runProjection (src : Sources) (sessionId : Uuid)
    (reply : Option (List LlmExtractedEntity)) :
    Except GraphError GraphProjection := do
  let artifacts ← loadSessionArtifacts env src sessionId
  let projection ←
    buildProjectionFromArtifacts env.rt env.texts artifacts
  let anchor ← buildArtifactAnchorProjection env.rt env.texts artifacts
    sessionId
  llmEnrichProjection env.rt env.texts env.llmExtractionEnabled reply
    (mergeProjections projection anchor)

/-- The run and the item a call indexes, or why it refuses to. -/
def runTarget (src : Sources) (runId : Uuid) :
    Except String (Run × IngestionItem) :=
  match src.runs.get runId with
  | none => .error "run_not_found"
  | some run =>
      if run.kind ≠ .pipeline then .error "not_pipeline_run"
      else if run.status ≠ .completed then .error "run_not_completed"
      else
        match src.jobs.get run.jobId with
        | none => .error "job_not_found"
        | some job =>
            match src.items.get job.ingestionItemId with
            | none => .error "ingestion_item_not_found"
            | some item => .ok (run, item)

/-- `index_run`, past its first queries: what it returns and the rows it
resolved the projected entities to. -/
def indexRunOf (src : Sources) (run : Run) (item : IngestionItem)
    (reply : Option (List LlmExtractedEntity)) :
    GraphM (IndexResult × List (ProjectionEntity × KgEntity)) := do
  let _ ← indexItem env src item
  match ← scalarOneOrNone ((← get).withOwnerKey item.ownerUserId
      (ingestionItemCanonicalKey item.id)) with
  | none => return (.refused "email_entity_missing", [])
  | some email =>
      let projection ← liftM (runProjection env src run.sessionId reply)
      let (resolved, edges) ← applyProjection env item.ownerUserId
        projection email run.id item
      let keys := resolved.map fun r =>
        (r.1.entityType, r.1.canonicalKey)
      return (.run run.id item.id keys.dedup.length edges, resolved)

/-- `index_run`. -/
def indexRun (src : Sources) (runId : Uuid)
    (reply : Option (List LlmExtractedEntity)) :
    GraphM (IndexResult × List (ProjectionEntity × KgEntity)) :=
  match runTarget src runId with
  | .error reason => pure (.refused reason, [])
  | .ok (run, item) => indexRunOf env src run item reply

end Runs

-- ================================================================== states

/-- The rows read and the graph. -/
structure GraphState where
  sources : Sources
  graph : Graph

def GraphState.init : GraphState := ⟨.empty, .empty⟩

/-- What happens: the rest of the application stores other rows, or a
task indexes. -/
inductive IndexAction where
  | store (sources : Sources)
  | item (itemId : Uuid)
  | run (runId : Uuid) (reply : Option (List LlmExtractedEntity))

/-- The graph an indexing call leaves. -/
def committed {α : Type} (call : GraphM α) (g : Graph) : Graph :=
  match call g with
  | .ok (_, g') => g'
  | .error _ => g

/-- The graph after an action. -/
def IndexAction.apply (env : GraphEnv) (a : IndexAction)
    (s : GraphState) : GraphState :=
  match a with
  | .store sources => { s with sources := sources }
  | .item itemId =>
      { s with graph :=
          committed (indexIngestionItem env s.sources itemId) s.graph }
  | .run runId reply =>
      { s with graph :=
          committed (indexRun env s.sources runId reply) s.graph }

/-- Every action is enabled. -/
def GraphState.step (env : GraphEnv) (a : IndexAction) (s : GraphState) :
    Option GraphState := some (a.apply env s)

/-- The states that calls in any order reach. -/
abbrev GraphReaches (env : GraphEnv)
    (G : IndexAction → GraphState → Prop) : GraphState → Prop :=
  Lts.Reachable (GraphState.step env) G GraphState.init

end LegalBot.Memory
