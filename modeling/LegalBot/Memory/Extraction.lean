/-
`memory/extraction.py`: what the artifacts of a session project into the
graph.

# Values

An artifact is any JSON value. `getOr`, `iterate` and `itemsOf` are
`d.get(k) or x`, a `for` loop over a value and `d.items()`; the last two
raise on values that have none. `str` of a value that is no string is the
`Runtime`'s.

# Projections

The nested functions `add` and `link` of the source take the projection
they extend and return it. `entity_by_key` holds the entities of the
projection under their type and key, so it is not kept apart.

# The model's reply

`llmEnrichProjection` is given what the structured call returned, `none`
when it raised.
-/
import LegalBot.Artifacts.Service
import LegalBot.Memory.Ontology

namespace LegalBot.Memory

open Json (getMember setMember truthy)

-- ================================================================== values

/-- What an indexing call may raise. -/
inductive GraphError where
  | attributeError | typeError | multipleResultsFound | noResultFound
  | integrityError | fileNotFound | decodeError | invalidRowCount
  deriving DecidableEq, Repr

/-- `d.get(k) or default`. -/
def getOr (d : Attributes) (k : String) (default : Json) : Json :=
  match getMember d k with
  | some v => if truthy v then v else default
  | none => default

/-- What a `for` loop over a value goes through. -/
def iterate : Json → Except GraphError (List Json)
  | .arr xs => .ok xs
  | .str s => .ok (s.toList.map fun c => .str (String.singleton c))
  | .obj d => .ok (d.map fun m => .str m.1)
  | _ => .error .typeError

/-- `d.items()`. -/
def itemsOf : Json → Except GraphError Attributes
  | .obj d => .ok d
  | _ => .error .attributeError

-- ================================================================= entries

section Entries

variable (rt : Runtime) (tx : Texts)

/-- The type an entry has: the one it names, if it is a type. -/
def entryType (d : Attributes) (name : String) : EntityType :=
  let typeRaw := getOr d "type" (getOr d "entity_type" .null)
  if truthy typeRaw then
    (EntityType.ofValue (strOf rt typeRaw)).getD
      (inferEntityTypeFromName tx name)
  else inferEntityTypeFromName tx name

/-- `_parse_entity_entry`. -/
def parseEntityEntry : Json → Option (EntityType × String)
  | .str raw =>
      let name := strip raw
      if name = "" then none
      else some (inferEntityTypeFromName tx name, name)
  | .obj d =>
      let name := strip (strOf rt
        (getOr d "name" (getOr d "canonical_name" (.str ""))))
      if name = "" then none else some (entryType rt tx d name, name)
  | _ => none

/-- The parties `contract_canonical_key` makes names of: `(p or
"").strip()` of a value that is no string raises. -/
def partyNames : List Json → Except GraphError (List String)
  | [] => .ok []
  | p :: rest =>
      if truthy p then
        match p with
        | .str name => (partyNames rest).map (name :: ·)
        | _ => .error .attributeError
      else partyNames rest

/-- `_entity_key`. -/
def entityKey (etype : EntityType) (name : String) (attrs : Attributes) :
    Except GraphError String :=
  match etype with
  | .organization =>
      match getOr attrs "domain" .null with
      | .null => .ok (organizationCanonicalKey tx name none)
      | .str domain => .ok (organizationCanonicalKey tx name (some domain))
      | _ => .error .attributeError
  | .person =>
      match getOr attrs "email" .null with
      | .null => .ok ("name:" ++ normalizeName tx name)
      | email => .ok (personCanonicalKey tx (strOf rt email))
  | .contract => do
      let parties ← iterate (getOr attrs "parties" (.arr []))
      let parties ← partyNames parties
      let ctype := strOf rt (getOr attrs "contract_type" (.str "unknown"))
      return contractCanonicalKey tx ctype parties
  | _ => .ok ("name:" ++ normalizeName tx name)

end Entries

-- ============================================================= projections

/-- `EMAIL_SRC_KEY`. -/
def emailSrcKey : String := "__email__"

/-- `add`: the entity already there, or the new one. -/
def GraphProjection.add (p : GraphProjection) (ent : ProjectionEntity) :
    ProjectionEntity × GraphProjection :=
  match p.entities.find? fun e => e.entityType = ent.entityType
      ∧ e.canonicalKey = ent.canonicalKey with
  | some found => (found, p)
  | none => (ent, { p with entities := p.entities ++ [ent] })

/-- `projection.edges.append`. -/
def GraphProjection.edge (p : GraphProjection) (e : ProjectionEdge) :
    GraphProjection := { p with edges := p.edges ++ [e] }

/-- `link`. -/
def GraphProjection.link (p : GraphProjection) (src dst : ProjectionEntity)
    (relation : Relation) : GraphProjection :=
  p.edge
    { srcType := src.entityType, srcKey := src.canonicalKey
      dstType := dst.entityType, dstKey := dst.canonicalKey
      relation := relation, attributes := [], confidence := 9 / 10
      origin := "artifact" }

/-- `link_email`. -/
def GraphProjection.linkEmail (p : GraphProjection)
    (dst : ProjectionEntity) (relation : Relation) : GraphProjection :=
  p.edge
    { srcType := .email, srcKey := emailSrcKey
      dstType := dst.entityType, dstKey := dst.canonicalKey
      relation := relation, attributes := [], confidence := 9 / 10
      origin := "artifact" }

section Artifacts

variable (rt : Runtime) (tx : Texts)

/-- One entry of an `extracted_data` artifact. -/
def projectEntry (content : Attributes) (snippet : String)
    (p : GraphProjection) (raw : Json) : Except GraphError GraphProjection :=
  match parseEntityEntry rt tx raw with
  | none => .ok p
  | some (etype, name) => do
      let attrs := [("source_file",
        (getMember content "source_file").getD .null)]
      let key ← entityKey rt tx etype name attrs
      let (ent, p) := p.add
        { entityType := etype, canonicalKey := key
          canonicalName := strip name, attributes := attrs, aliases := []
          snippet := some snippet, confidence := 9 / 10
          origin := "artifact" }
      return p.linkEmail ent .mentions

/-- The entities of one artifact, if it is `extracted_data`. -/
def projectExtracted (p : GraphProjection) (artifact : String × Json) :
    Except GraphError GraphProjection :=
  match artifact with
  | (key, .obj content) =>
      if startsWith key "extracted_data/" then do
        let snippet := takeChars 500
          (strOf rt (getOr content "summary" (.str key)))
        let entries ← iterate (getOr content "entities" (.arr []))
        entries.foldlM (projectEntry rt tx content snippet) p
      else .ok p
  | _ => .ok p

/-- The law area of a report. -/
def projectIntention (report : Attributes) (p : GraphProjection) :
    GraphProjection :=
  let intention := strip (strOf rt (getOr report "intention" (.str "")))
  if intention = "" then p
  else
    let (ent, p) := p.add
      { entityType := .document
        canonicalKey := lawAreaCanonicalKey tx (takeChars 80 intention)
        canonicalName := strip (takeChars 120 intention)
        attributes := [("analysis_intention", .bool true)], aliases := []
        snippet := none, confidence := 9 / 10, origin := "artifact" }
    p.linkEmail ent .concerns

/-- One field of the two loops over party fields: the names, the
entities and the projection so far. A request keeps a snippet, a draft
none. -/
def projectParty (snippets : Bool)
    (acc : List String × List ProjectionEntity × GraphProjection)
    (field : String × Json) :
    Except GraphError
      (List String × List ProjectionEntity × GraphProjection) :=
  if isPartyFieldName tx field.1 then
    let name := strip (strOf rt field.2)
    if name = "" then .ok acc
    else do
      let (names, parties, p) := acc
      let etype := inferEntityTypeFromName tx name
      let attrs := [("field", .str field.1)]
      let key ← entityKey rt tx etype name attrs
      let (ent, p) := p.add
        { entityType := etype, canonicalKey := key
          canonicalName := strip name, attributes := attrs, aliases := []
          snippet :=
            if snippets then some (field.1 ++ ": " ++ name) else none
          confidence := 9 / 10, origin := "artifact" }
      return (names ++ [name], parties ++ [ent], p)
  else .ok acc

/-- `for party_ent in party_entities`. -/
def GraphProjection.linkParties (p : GraphProjection)
    (parties : List ProjectionEntity) (contract : ProjectionEntity) :
    GraphProjection :=
  parties.foldl (fun p party => p.link party contract .partyTo) p

/-- The contract a report asks for. -/
def projectRequest (report : Attributes) (p : GraphProjection) :
    Except GraphError GraphProjection :=
  let action := strip (strOf rt (getOr report "action" (.str "")))
  match getOr report "action_payload" (.obj []) with
  | .obj payload =>
      if action = "create_contract" then do
        let typeHint := strip (strOf rt
          (getOr payload "contract_type_hint" (.str "contract")))
        let provided ← itemsOf (getOr payload "provided_fields" (.obj []))
        let (names, parties, p) ←
          provided.foldlM (projectParty rt tx true) ([], [], p)
        if names ≠ [] ∨ typeHint ≠ "" then
          let (contract, p) := p.add
            { entityType := .contract
              canonicalKey := contractCanonicalKey tx typeHint names
              canonicalName := strip typeHint
              attributes := [("contract_type", .str typeHint),
                ("parties", .arr (names.map .str)),
                ("status", .str "requested")]
              aliases := [], snippet := none, confidence := 9 / 10
              origin := "artifact" }
          return (p.linkParties parties contract).linkEmail contract
            .references
        else return p
      else .ok p
  | _ => .ok p

/-- The contract of a draft. -/
def projectDraft (draft : Attributes) (p : GraphProjection) :
    Except GraphError GraphProjection := do
  let contractType := strip (strOf rt
    (getOr draft "contract_type" (.str "contract")))
  let fieldValues ← itemsOf (getOr draft "field_values" (.obj []))
  let (names, parties, p) ←
    fieldValues.foldlM (projectParty rt tx false) ([], [], p)
  let (contract, p) := p.add
    { entityType := .contract
      canonicalKey := contractCanonicalKey tx contractType names
      canonicalName := strip (strOf rt
        (getOr draft "display_name" (.str contractType)))
      attributes := [("contract_type", .str contractType),
        ("parties", .arr (names.map .str)),
        ("field_values", .obj fieldValues), ("status", .str "draft")]
      aliases := [], snippet := none, confidence := 95 / 100
      origin := "artifact" }
  let p := p.linkParties parties contract
  let governing := getOr fieldValues "governing_law" .null
  if truthy governing then
    let name := strOf rt governing
    let (jurisdiction, p) := p.add
      { entityType := .jurisdiction
        canonicalKey := "jurisdiction:" ++ normalizeName tx name
        canonicalName := strip (strip name), attributes := []
        aliases := [], snippet := none, confidence := 9 / 10
        origin := "artifact" }
    return p.link contract jurisdiction .governedBy
  else return p

/-- `build_projection_from_artifacts`. -/
def buildProjectionFromArtifacts (artifacts : Attributes) :
    Except GraphError GraphProjection := do
  let p ← artifacts.foldlM (projectExtracted rt tx) .empty
  let p ←
    match getOr artifacts "analysis/report" (.obj []) with
    | .obj report =>
        projectRequest rt tx report (projectIntention rt tx report p)
    | _ => pure p
  match getMember artifacts "contracts/draft" with
  | some (.obj draft) => projectDraft rt tx draft p
  | _ => return p

end Artifacts

-- ================================================================= anchors

/-- `artifact_key.split("/", 1)[0]`, with the default of a key without
a slash. -/
def keyPrefix (artifactKey : String) : String :=
  if '/' ∈ artifactKey.toList then
    String.ofList (artifactKey.toList.takeWhile (· ≠ '/'))
  else "artifact"

/-- `artifact_key.rsplit("/", 1)[-1]`. -/
def keySuffix (artifactKey : String) : String :=
  String.ofList
    (artifactKey.toList.reverse.takeWhile (· ≠ '/')).reverse

/-- `add_doc`. -/
def GraphProjection.addDoc (p : GraphProjection) (sessionId : Uuid)
    (artifactKey displayName docKind : String)
    (sourceFile : Option String) (extraAttrs : Attributes) :
    ProjectionEntity × GraphProjection :=
  let name := if displayName = "" then artifactKey else displayName
  let attrs := [("artifact_key", .str artifactKey),
    ("session_id", .str (toString sessionId))]
  let attrs := if docKind = "" then attrs
    else setMember attrs "doc_kind" (.str docKind)
  let attrs := if sourceFile.getD "" = "" then attrs
    else setMember attrs "source_file" (.str (sourceFile.getD ""))
  p.add
    { entityType := .document
      canonicalKey := artifactCanonicalKey sessionId artifactKey
      canonicalName := name
      attributes := extraAttrs.foldl (fun d m => setMember d m.1 m.2) attrs
      aliases := [], snippet := some name, confidence := 1
      origin := "artifact" }

/-- `link_docs`: the keyword `attributes` is one of the attributes. -/
def GraphProjection.linkDocs (p : GraphProjection)
    (src dst : ProjectionEntity) (attributes : Attributes) :
    GraphProjection :=
  p.edge
    { srcType := src.entityType, srcKey := src.canonicalKey
      dstType := dst.entityType, dstKey := dst.canonicalKey
      relation := .references
      attributes := [("attributes", .obj attributes)]
      confidence := 1, origin := "artifact" }

/-- `link_email_doc`. -/
def GraphProjection.linkEmailDoc (p : GraphProjection)
    (dst : ProjectionEntity) (role : String) : GraphProjection :=
  p.edge
    { srcType := .email, srcKey := emailSrcKey
      dstType := dst.entityType, dstKey := dst.canonicalKey
      relation := .references, attributes := [("role", .str role)]
      confidence := 1, origin := "artifact" }

section Anchors

variable (rt : Runtime) (tx : Texts)

/-- The artifacts one attachment of the extraction was read from. -/
def attachmentArtifactKeys : Json → List String
  | .obj att =>
      if truthy ((getMember att "processed").getD .null) then
        let refs := [getOr att "data_artifact_key" .null,
          getOr att "text_artifact_key" .null].filter truthy
        let name := getOr att "name" .null
        refs.map (strOf rt) ++
          if truthy name then ["extracted_data/" ++ strOf rt name] else []
      else []
  | _ => []

/-- `sorted(source_artifact_keys)`. -/
def sourceArtifactKeys (artifacts : Attributes)
    (extracted : Option Attributes) :
    Except GraphError (List String) := do
  let fromAttachments ←
    match extracted with
    | some extracted => iterate (getOr extracted "attachments" (.arr []))
    | none => pure []
  let stored := (artifacts.map (·.1)).filter fun key =>
    startsWith key "extracted_data/" || startsWith key "extracted_text/"
      || startsWith key "image_analysis/"
  return ((fromAttachments.flatMap (attachmentArtifactKeys rt)
    ++ stored).dedup).insertionSort (· ≤ ·)

/-- The file an artifact was made from. -/
def sourceFileOf (artifacts : Attributes) (artifactKey : String) :
    Option String :=
  let named :=
    match getMember artifacts artifactKey with
    | some (.obj content) =>
        let name := strip (strOf rt (getOr content "source_file" (.str "")))
        if name = "" then none else some name
    | _ => none
  if named = none ∧ '/' ∈ artifactKey.toList then
    some (keySuffix artifactKey)
  else named

/-- `source_file` as an attribute. -/
def fileAttr (sourceFile : Option String) : Json :=
  match sourceFile with
  | some name => .str name
  | none => .null

/-- The document of one source artifact, and its edges. -/
def anchorSource (artifacts : Attributes) (sessionId : Uuid)
    (extractedDoc reportDoc : Option ProjectionEntity)
    (p : GraphProjection) (artifactKey : String) : GraphProjection :=
  let sourceFile := sourceFileOf rt artifacts artifactKey
  let (doc, p) := p.addDoc sessionId artifactKey artifactKey
    (keyPrefix artifactKey) sourceFile []
  let p :=
    match extractedDoc with
    | some src => p.linkDocs src doc [("role", .str "extraction_source"),
        ("source_file", fileAttr sourceFile)]
    | none => p
  let p :=
    match reportDoc with
    | some src => p.linkDocs src doc [("role", .str "analysis_source"),
        ("source_file", fileAttr sourceFile)]
    | none => p
  if sourceFile.getD "" = "" then p
  else p.edge
    { srcType := .attachment
      srcKey := attachmentFilenameKey tx (sourceFile.getD "")
      dstType := doc.entityType, dstKey := doc.canonicalKey
      relation := .references
      attributes := [("role", .str "analyzed_as"),
        ("artifact_key", .str artifactKey)]
      confidence := 1, origin := "artifact" }

/-- An artifact that is a dict. -/
def dictArtifact (artifacts : Attributes) (key : String) :
    Option Attributes :=
  match getMember artifacts key with
  | some (.obj content) => some content
  | _ => none

/-- The document of `analysis/extracted`. -/
def anchorExtracted (sessionId : Uuid) (extracted : Attributes)
    (p : GraphProjection) : ProjectionEntity × GraphProjection :=
  let (doc, p) := p.addDoc sessionId "analysis/extracted"
    "Email extraction" "analysis/extracted" none
    [("subject", (getMember extracted "subject").getD .null),
      ("action_requested",
        (getMember extracted "action_requested").getD .null)]
  (doc, p.linkEmailDoc doc "extraction")

/-- The document of `analysis/report`. -/
def anchorReport (sessionId : Uuid) (report : Attributes)
    (extractedDoc : Option ProjectionEntity) (p : GraphProjection) :
    ProjectionEntity × GraphProjection :=
  let (doc, p) := p.addDoc sessionId "analysis/report"
    "Email analysis report" "analysis/report" none
    [("action", (getMember report "action").getD .null),
      ("intention", (getMember report "intention").getD .null)]
  let p := p.linkEmailDoc doc "report"
  match extractedDoc with
  | some dst => (doc, p.linkDocs doc dst [("role", .str "derived_from"),
      ("lineage", .str "report_from_extraction")])
  | none => (doc, p)

/-- `build_artifact_anchor_projection`. -/
def buildArtifactAnchorProjection (artifacts : Attributes)
    (sessionId : Uuid) : Except GraphError GraphProjection := do
  let extracted := dictArtifact artifacts "analysis/extracted"
  let (extractedDoc, p) :=
    match extracted with
    | some extracted =>
        let (doc, p) := anchorExtracted sessionId extracted .empty
        (some doc, p)
    | none => (none, .empty)
  let (reportDoc, p) :=
    match dictArtifact artifacts "analysis/report" with
    | some report =>
        let (doc, p) := anchorReport sessionId report extractedDoc p
        (some doc, p)
    | none => (none, p)
  let keys ← sourceArtifactKeys rt artifacts extracted
  return keys.foldl (anchorSource rt tx artifacts sessionId extractedDoc
    reportDoc) p

end Anchors

-- ================================================================= merging

/-- One entity of `merge_projections`. -/
def mergeEntity (entities : List ProjectionEntity)
    (ent : ProjectionEntity) : List ProjectionEntity :=
  if ∃ e ∈ entities, e.entityType = ent.entityType
      ∧ e.canonicalKey = ent.canonicalKey then entities
  else entities ++ [ent]

/-- `merge_projections`. -/
def mergeProjections (base extra : GraphProjection) : GraphProjection :=
  { entities := extra.entities.foldl mergeEntity base.entities
    edges := base.edges ++ extra.edges }

/-- The entity of an extracted one. -/
def llmEntity (rt : Runtime) (tx : Texts) (raw : LlmExtractedEntity) :
    Except GraphError ProjectionEntity := do
  let key ← entityKey rt tx raw.entityType raw.name raw.attributes
  return { entityType := raw.entityType, canonicalKey := key
           canonicalName := strip raw.name, attributes := raw.attributes
           aliases := raw.aliases, snippet := none
           confidence := raw.confidence, origin := "llm" }

/-- `llm_enrich_projection`, with `KG_LLM_EXTRACTION_ENABLED`. -/
def llmEnrichProjection (rt : Runtime) (tx : Texts) (enabled : Bool)
    (reply : Option (List LlmExtractedEntity)) (base : GraphProjection) :
    Except GraphError GraphProjection :=
  if enabled then
    match reply with
    | none => .ok base
    | some raws => do
        let entities ← raws.mapM (llmEntity rt tx)
        return mergeProjections base ⟨entities, []⟩
  else .ok base

end LegalBot.Memory
