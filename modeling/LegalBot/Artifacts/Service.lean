/-
`ArtifactService`: what its statements read and write, one definition a
statement, and the service methods composed of them.

# Content

A Python value handed to `write` is a JSON value (a `str` is one) or
bytes. `write` turns it into bytes for the checksum and the blob store;
a JSON value under the inline limit goes into the row instead. `read`
undoes this by the row's storage and mime type.

# What is not under this repository

`Runtime` is what the service calls of the Python runtime and its
libraries: `json.loads`, `str()` of a value that is no string, SHA-256,
`jsonpatch`. A dict read from a JSONB column equals the dict stored in
it; the order in which the column keeps its keys is not modelled.

# Statements

The queries are functions of the rows a statement sees, so that a method
running alone (`write`, below) and the statements of concurrent
transactions (`Artifacts/Transactions.lean`) use the same definitions.
-/
import LegalBot.Artifacts.Keys
import LegalBot.Db.Models
import LegalBot.Lib.VersionChain
import Mathlib.Data.List.Sort
import Mathlib.Logic.Function.Basic

namespace LegalBot

open Relational (HasKey Table)
open VersionChain (Versioned demoteIn maxVersion rowsOf)

-- ================================================================== values

/-- What `write` is given and `read` returns. -/
inductive Content where
  | value (v : Json)
  | bytes (data : List UInt8)
  deriving DecidableEq

/-- The runtime the service runs on. -/
structure Runtime where
  loads : List UInt8 → Option Json
  str : Json → String
  sha256 : List UInt8 → String
  applyPatch : Content → Content → Option Json

/-- `ArtifactService.__init__`. -/
structure ArtifactService where
  inlineMaxBytes : Nat
  versionCap : Nat
  deriving DecidableEq, Repr

/-- The blob store: what is kept under a reference. -/
abbrev Blobs := String → Option (List UInt8)

/-- Why an artifact operation raised. -/
inductive ArtifactError where
  | versionCapExceeded (key : String) (cap : Nat)
  | notFound (key : String)
  | idNotFound (id : Uuid)
  | sessionRequired
  | notSerializable
  | mergePatchMime
  | patchConflict
  | multipleResults
  | integrityError
  | missingBlobRef
  | fileNotFound
  | decodeError
  deriving DecidableEq, Repr

/-- `except ArtifactNotFound`. -/
def ArtifactError.isNotFound : ArtifactError → Bool
  | .notFound _ | .idNotFound _ => true
  | _ => false

-- ================================================================= storing

/-- `str(content)`; a string is its own `str`. -/
def strOf (rt : Runtime) : Json → String
  | .str s => s
  | v => rt.str v

/-- `payload_bytes` of `write`. -/
def payloadBytes (rt : Runtime) (mime : String) (content : Content) :
    Except ArtifactError (List UInt8) :=
  if mime = "application/json" then
    match content with
    | .value v => .ok (Json.encodeUtf8 (Json.dumps v))
    | .bytes _ => .error .notSerializable
  else
    match content with
    | .bytes data => .ok data
    | .value v => .ok (Json.encodeUtf8 (strOf rt v))

/-- The storage `write` chooses. -/
def storageOf (svc : ArtifactService) (mime : String) (content : Content)
    (sizeBytes : Nat) : ArtifactStorage :=
  match content with
  | .value _ =>
      if mime = "application/json" ∧ sizeBytes ≤ svc.inlineMaxBytes then
        .inline
      else .blob
  | .bytes _ => .blob

/-- `sessions/{session_id}/artifacts/{artifact_id}`. -/
def blobRefOf (sessionId artifactId : Uuid) : String :=
  "sessions/" ++ toString sessionId ++ "/artifacts/" ++ toString artifactId

/-- The arguments of `write`. -/
structure WriteArgs where
  sessionId : Uuid
  key : String
  content : Content
  kind : String
  producer : String
  runId : Option Uuid
  mime : String
  metadata : Option (List (String × Json))
  createdBy : Option String
  deriving DecidableEq

/-- A payload on its way into a row. -/
structure Payload where
  data : List UInt8
  storage : ArtifactStorage
  deriving DecidableEq

/-- The bytes of a content and where they go. -/
def payloadOf (rt : Runtime) (svc : ArtifactService) (a : WriteArgs) :
    Except ArtifactError Payload :=
  (payloadBytes rt a.mime a.content).map fun data =>
    ⟨data, storageOf svc a.mime a.content data.length⟩

/-- `blob.put`, for a payload that is not kept inline. -/
def putPayload (blobs : Blobs) (a : WriteArgs) (id : Uuid)
    (payload : Payload) : Blobs :=
  match payload.storage with
  | .inline => blobs
  | .blob =>
      Function.update blobs (blobRefOf a.sessionId id) (some payload.data)

/-- The row `write` inserts. -/
def newArtifact (rt : Runtime) (a : WriteArgs) (id : Uuid)
    (version : Nat) (payload : Payload) (prior : Option Uuid) : Artifact :=
  { id := id
    sessionId := a.sessionId
    runId := a.runId
    producer := a.producer
    kind := a.kind
    key := a.key
    version := version
    mime := a.mime
    storage := payload.storage
    contentInline :=
      match payload.storage, a.content with
      | .inline, .value v => some v
      | _, _ => none
    blobRef :=
      match payload.storage with
      | .inline => none
      | .blob => some (blobRefOf a.sessionId id)
    checksum := rt.sha256 payload.data
    sizeBytes := payload.data.length
    metadata := .obj (a.metadata.getD [])
    supersedesArtifactId := prior
    isLatest := true
    createdBy := a.createdBy }

/-- `ArtifactRef`. -/
structure ArtifactRef where
  id : Uuid
  key : String
  version : Nat
  kind : String
  mime : String
  sizeBytes : Nat
  storage : ArtifactStorage
  metadata : Json
  summary : Option Json
  deriving DecidableEq

/-- What `write` returns for the row it inserted. -/
def Artifact.ref (row : Artifact) : ArtifactRef :=
  { id := row.id, key := row.key, version := row.version, kind := row.kind
    mime := row.mime, sizeBytes := row.sizeBytes, storage := row.storage
    metadata := row.metadata
    summary := Json.getMember row.metadata.members "summary" }

-- ============================================================== statements

/-- Artifact rows as versions of their `(session_id, key)`. -/
instance : Versioned Artifact Uuid (Uuid × String) where
  id := Artifact.id
  cell := fun r => (r.sessionId, r.key)
  version := Artifact.version
  prior := Artifact.supersedesArtifactId
  latest := Artifact.isLatest
  demote := fun r => { r with isLatest := false }
  id_demote := fun _ => rfl
  cell_demote := fun _ => rfl
  version_demote := fun _ => rfl
  prior_demote := fun _ => rfl
  latest_demote := fun _ => rfl
  demote_demote := fun _ => rfl

/-- `_next_version` over the rows it sees. -/
def nextVersion (rows : List Artifact) (sessionId : Uuid) (key : String) :
    Nat :=
  maxVersion (rowsOf (sessionId, key) rows) + 1

/-- `scalar_one_or_none()`. -/
def scalarOneOrNone {α : Type} : List α → Except ArtifactError (Option α)
  | [] => .ok none
  | [a] => .ok (some a)
  | _ => .error .multipleResults

theorem scalarOneOrNone_some {α : Type} {l : List α} {a : α}
    (h : scalarOneOrNone l = .ok (some a)) : l = [a] := by
  unfold scalarOneOrNone at h
  split at h
  · cases h
  · injection h with h
    injection h with h
    rw [h]
  · cases h

/-- The `SELECT` of `_demote_current_latest`. -/
def selectLatest (rows : List Artifact) (sessionId : Uuid) (key : String) :
    Except ArtifactError (Option Uuid) :=
  scalarOneOrNone (((rowsOf (sessionId, key) rows).filter
    fun r => r.isLatest).map (·.id))

/-- Two rows that a unique index keeps apart: the primary key,
`uq_artifact_session_key_version`, `uq_artifact_latest`. -/
def Artifact.conflicts (r r' : Artifact) : Prop :=
  r.id = r'.id ∨ (r.sessionId = r'.sessionId ∧ r.key = r'.key
    ∧ (r.version = r'.version ∨ (r.isLatest = true ∧ r'.isLatest = true)))

instance (r r' : Artifact) : Decidable (r.conflicts r') := by
  unfold Artifact.conflicts
  infer_instance

/-- The same in the terms of version chains. -/
theorem Artifact.conflicts_iff {r r' : Artifact} :
    r.conflicts r' ↔ Versioned.id r = Versioned.id r'
      ∨ (Versioned.cell r = Versioned.cell r'
        ∧ (Versioned.version r = Versioned.version r'
          ∨ (Versioned.latest r = true ∧ Versioned.latest r' = true))) := by
  unfold Artifact.conflicts
  constructor
  · rintro (hid | ⟨hsid, hkey, hsame⟩)
    · exact Or.inl hid
    · exact Or.inr ⟨Prod.ext hsid hkey, hsame⟩
  · rintro (hid | ⟨hcell, hsame⟩)
    · exact Or.inl hid
    · obtain ⟨hsid, hkey⟩ := Prod.mk.inj hcell
      exact Or.inr ⟨hsid, hkey, hsame⟩

/-- The insert of `row` violates a unique index on the rows it sees. -/
def Violates (rows : List Artifact) (row : Artifact) : Prop :=
  ∃ r ∈ rows, r.conflicts row

instance (rows : List Artifact) (row : Artifact) :
    Decidable (Violates rows row) := by
  unfold Violates
  infer_instance

-- =================================================================== write

/-- The `UPDATE` of `_demote_current_latest`. -/
def demoteLatest (artifacts : Table Artifact) (prior : Option Uuid) :
    Table Artifact :=
  artifacts.updateWhere (fun r => some r.id = prior)
    fun r => { r with isLatest := false }

/-- The insert of `write` and its flush. -/
def insertArtifact (artifacts : Table Artifact) (row : Artifact) :
    Except ArtifactError (Table Artifact) :=
  if Violates artifacts.rows row then .error .integrityError
  else
    match artifacts.insert row with
    | some artifacts' => .ok artifacts'
    | none => .error .integrityError

/-- `write`, alone on the database: the row it inserted and what it left
in the table and in the blob store. `id` is the uuid4 it draws. -/
def write (rt : Runtime) (svc : ArtifactService)
    (artifacts : Table Artifact) (blobs : Blobs) (a : WriteArgs)
    (id : Uuid) :
    Except ArtifactError (Artifact × Table Artifact × Blobs) := do
  let version := nextVersion artifacts.rows a.sessionId a.key
  if svc.versionCap < version then
    throw (.versionCapExceeded a.key svc.versionCap)
  let payload ← payloadOf rt svc a
  let blobs := putPayload blobs a id payload
  let prior ← selectLatest artifacts.rows a.sessionId a.key
  let row := newArtifact rt a id version payload prior
  let artifacts ← insertArtifact (demoteLatest artifacts prior) row
  return (row, artifacts, blobs)

-- ==================================================================== read

/-- `key_or_id`. -/
inductive KeyOrId where
  | key (k : String)
  | id (i : Uuid)
  deriving DecidableEq, Repr

/-- What a read that found nothing raises. -/
def KeyOrId.notFound : KeyOrId → ArtifactError
  | .key k => .notFound k
  | .id i => .idNotFound i

/-- The payload of a row. -/
def resolvePayload (rt : Runtime) (blobs : Blobs) (row : Artifact) :
    Except ArtifactError Content :=
  match row.storage with
  | .inline => .ok (.value (row.contentInline.getD .null))
  | .blob =>
      match row.blobRef with
      | none => .error .missingBlobRef
      | some ref =>
          match blobs ref with
          | none => .error .fileNotFound
          | some data =>
              if row.mime = "application/json" then
                match rt.loads data with
                | some v => .ok (.value v)
                | none => .error .decodeError
              else .ok (.bytes data)

/-- The version a read by key asks for; `none` is the latest. -/
def versionMatches (version : Option Nat) (r : Artifact) : Bool :=
  match version with
  | none => r.isLatest
  | some v => r.version = v

/-- The `WHERE` of `read`. -/
def readMatches (sessionId : Uuid) (key : KeyOrId) (version : Option Nat)
    (r : Artifact) : Bool :=
  match key with
  | .id i => r.id = i
  | .key k => r.sessionId = sessionId ∧ r.key = k ∧ versionMatches version r

/-- `read` with a session. -/
def read (rt : Runtime) (rows : List Artifact) (blobs : Blobs)
    (sessionId : Uuid) (key : KeyOrId) (version : Option Nat) :
    Except ArtifactError (Artifact × Content) := do
  match ← scalarOneOrNone (rows.filter (readMatches sessionId key version))
  with
  | none => throw key.notFound
  | some row =>
      let content ← resolvePayload rt blobs row
      return (row, content)

-- ================================================================== update

/-- `_json_merge_patch(original, patch)` on values that may be bytes,
which are no dicts. -/
def mergeContent (original patch : Content) : Content :=
  match patch with
  | .bytes data => .bytes data
  | .value p =>
      match original with
      | .value v => .value (Json.jsonMergePatch v p)
      | .bytes _ => .value (Json.jsonMergePatch .null p)

/-- `merge`; anything but the two patch modes replaces. -/
inductive MergeMode where
  | replace | jsonMergePatch | jsonPatch
  deriving DecidableEq, Repr

/-- The arguments of `update`. -/
structure UpdateArgs where
  sessionId : Uuid
  key : String
  patchOrContent : Content
  merge : MergeMode
  runId : Option Uuid
  producer : String
  kind : Option String
  mime : String
  metadata : Option (List (String × Json))
  createdBy : Option String
  deriving DecidableEq

/-- `kind or …`: an empty kind counts as none. -/
def UpdateArgs.resolvedKind (u : UpdateArgs) (row : Option Artifact) :
    String :=
  match u.kind with
  | some k => if k = "" then (row.map (·.kind)).getD "custom" else k
  | none => (row.map (·.kind)).getD "custom"

/-- The write an update ends in. -/
def UpdateArgs.writeArgs (u : UpdateArgs) (row : Option Artifact)
    (content : Content) : WriteArgs :=
  { sessionId := u.sessionId, key := u.key, content := content
    kind := u.resolvedKind row, producer := u.producer, runId := u.runId
    mime := u.mime, metadata := u.metadata, createdBy := u.createdBy }

/-- The read of `update` and what it makes of it: the write to do, with
the row and the content it was computed from. -/
def updateFrom (rt : Runtime) (u : UpdateArgs)
    (current : Except ArtifactError (Artifact × Content)) :
    Except ArtifactError (WriteArgs × Option Artifact × Content) :=
  match u.merge with
  | .jsonMergePatch =>
      match current with
      | .ok (row, previous) =>
          if u.mime ≠ "application/json" then .error .mergePatchMime
          else .ok (u.writeArgs (some row)
            (mergeContent previous u.patchOrContent), some row, previous)
      | .error e =>
          if e.isNotFound then
            if u.mime ≠ "application/json" then .error .mergePatchMime
            else .ok (u.writeArgs none
              (mergeContent (.value (.obj [])) u.patchOrContent), none,
              .value (.obj []))
          else .error e
  | .jsonPatch =>
      match current with
      | .ok (row, previous) =>
          match rt.applyPatch u.patchOrContent previous with
          | some v => .ok (u.writeArgs (some row) (.value v), some row,
              previous)
          | none => .error .patchConflict
      | .error e => .error e
  | .replace =>
      match current with
      | .ok (row, previous) =>
          .ok (u.writeArgs (some row) u.patchOrContent, some row, previous)
      | .error e =>
          if e.isNotFound then
            .ok (u.writeArgs none u.patchOrContent, none, .value (.obj []))
          else .error e

-- ========================================================== thread lookup

/-- `provider_thread_id` of the email a session works on: the joins go
along primary keys. -/
def providerThreadId (db : Db) (session : Session) : Option String := do
  let job ← db.jobs.get session.jobId
  let item ← db.items.get job.ingestionItemId
  let email ← db.emailMetadata.get item.id
  email.providerThreadId

/-- `session_ids_in_email_thread`. -/
def sessionIdsInEmailThread (db : Db) (sessionId : Uuid) : List Uuid :=
  match (db.sessions.get sessionId).bind (providerThreadId db) with
  | none => [sessionId]
  | some thread =>
      if thread = "" then [sessionId]
      else
        let siblings := (db.sessions.rows.filter fun s =>
          s.kind = .primary ∧ providerThreadId db s = some thread)
        let ids := (siblings.insertionSort
          fun s s' => s.createdAt ≤ s'.createdAt).map (·.id)
        if ids.isEmpty then [sessionId] else ids

/-- The loop over candidate keys: the first one that is found, or whose
read raises something else. -/
def readFirst (rt : Runtime) (rows : List Artifact) (blobs : Blobs)
    (sessionId : Uuid) (version : Option Nat) :
    List String → Option (Except ArtifactError (Artifact × Content))
  | [] => none
  | key :: rest =>
      match read rt rows blobs sessionId (.key key) version with
      | .ok found => some (.ok found)
      | .error e =>
          if e.isNotFound then
            readFirst rt rows blobs sessionId version rest
          else some (.error e)

/-- The loop over the sessions of the thread. -/
def readSiblings (rt : Runtime) (rows : List Artifact) (blobs : Blobs)
    (sessionId : Uuid) (version : Option Nat) (candidates : List String) :
    List Uuid → Option (Except ArtifactError (Artifact × Content))
  | [] => none
  | sibling :: rest =>
      if sibling = sessionId then
        readSiblings rt rows blobs sessionId version candidates rest
      else
        match readFirst rt rows blobs sibling version candidates with
        | some found => some found
        | none =>
            readSiblings rt rows blobs sessionId version candidates rest

/-- `read_resolved`. -/
def readResolved (rt : Runtime) (db : Db) (blobs : Blobs)
    (sessionId : Uuid) (key : KeyOrId) (version : Option Nat)
    (threadFallback : Bool) : Except ArtifactError (Artifact × Content) :=
  let rows := db.artifacts.rows
  match key with
  | .id i => read rt rows blobs sessionId (.id i) version
  | .key k =>
      let candidates := artifactKeyCandidates k
      if candidates.isEmpty then .error (.notFound k)
      else
        match readFirst rt rows blobs sessionId version candidates with
        | some found => found
        | none =>
            if threadFallback then
              match readSiblings rt rows blobs sessionId version candidates
                (sessionIdsInEmailThread db sessionId) with
              | some found => found
              | none => .error (.notFound k)
            else .error (.notFound k)

-- =============================================================== scenarios

/-- The default limits. -/
def ArtifactService.default : ArtifactService := ⟨32768, 20⟩

/-- The texts of the scenarios, with what `json.loads` makes of them and
their SHA-256. -/
def sampleTexts : List (String × Option Json × String) :=
  [("1", some (.int 1),
      "6b86b273ff34fce19d6b804eff5a3f5747ada4eaa22f1d49c01e52ddb7875b4b"),
    ("\x7b\"a\": 1\x7d", some (.obj [("a", .int 1)]),
      "f9d86028c6e0d64e225186f96acb69338b2c59764df79162107f5c4bb34d1310"),
    ("\x7b\"b\": 2\x7d", some (.obj [("b", .int 2)]),
      "c8fe83d1b9e9b56158059f7fd890c50c5b91a75951faaca6774a2f5592356d03"),
    ("\x7b\"a\": 1, \"b\": 2\x7d",
      some (.obj [("a", .int 1), ("b", .int 2)]),
      "d8497d9d82770a70729261095aa98f7ef5154d7af499f8037b6ca250296785a6"),
    ("hello", none,
      "2cf24dba5fb0a30e26e83b2ac5b9e29e1b161e5c1fa7425e73043362938b9824")]

/-- The runtime on the texts of the scenarios. -/
def Runtime.sample : Runtime :=
  let find := fun data =>
    sampleTexts.find? fun entry => Json.encodeUtf8 entry.1 = data
  { loads := fun data => (find data).bind fun entry => entry.2.1
    str := Json.dumps
    sha256 := fun data =>
      match find data with
      | some entry => entry.2.2
      | none => ""
    applyPatch := fun _ _ => none }

end LegalBot
