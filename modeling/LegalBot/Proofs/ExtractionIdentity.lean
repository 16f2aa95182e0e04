/-
Whose bytes an extraction artifact was made from.

# A session

`SessionAction` has the calls of the stage tools, of `send_draft`, and
the artifacts that the stages write themselves (the report, the
inventory); the other tools write no artifact. A call that raises leaves
the tables as they were.

# Identity

An artifact is an attachment's own (`OwnArtifact`) when it is a version
that the extraction, or the analysis, of this attachment wrote: its
metadata names the id, and its content was made of bytes read from the
attachment's file.

Artifacts are kept under the file name. So identity lasts as long as no
call writes under a key of an attachment of the email for anything but
that attachment (`Minds`); `Identified` is the invariant.
-/
import LegalBot.Artifacts.LocalBlobStore
import LegalBot.Proofs.ExactNames
import LegalBot.Proofs.StageCalls

namespace LegalBot.Stages

open Raising (Ends Keeps ends_bind ends_pure run)
open Relational (HasKey Table)
open Tools

-- ================================================================= sessions

/-- A call of a stage tool, with what is injected and drawn. -/
structure SessionCall where
  runId : Option Uuid
  firstId : Uuid
  secondId : Uuid
  maxBytes : Nat
  call : StageCall

inductive SessionAction where
  | call (c : SessionCall)
  | send (draftId : String)
  | write (args : WriteArgs) (id : Uuid)

/-- The code of a call in a session. -/
def SessionCall.program (env : ToolEnv) (sid : Uuid) (c : SessionCall) :
    ToolM ToolOutput :=
  c.call.perform
    { env := env, floatRepr := id, sessionId := sid, runId := c.runId
      maxBytes := c.maxBytes }
    { sessionId := sid, runId := c.runId, firstId := c.firstId
      secondId := c.secondId }

def SessionAction.program (env : ToolEnv) (sid : Uuid) :
    SessionAction → ToolM ToolOutput
  | .call c => c.program env sid
  | .send draftId => .json <$> sendDraft env draftId
  | .write args id =>
      (fun row => .json (refToDict row.ref)) <$> writeArtifact env args id

/-- What a call leaves: the tables as they were if it raised. -/
def settled (s : ToolState) : Except ToolError ToolOutput × ToolState →
    ToolState
  | (.ok _, s') => s'
  | (.error _, s') => { s with blobs := s'.blobs }

def sessionStep (env : ToolEnv) (sid : Uuid) (a : SessionAction)
    (s : ToolState) : Option ToolState :=
  some (settled s (run (a.program env sid) s))

-- ===================================================================== keys

/-- `att.name or default`. -/
def fileName (default : String) (att : IngestionAttachment) : String :=
  if att.name = "" then default else att.name

def textKey (att : IngestionAttachment) : String :=
  "extracted_text/" ++ fileName "attachment" att

def dataKey (att : IngestionAttachment) : String :=
  "extracted_data/" ++ fileName "attachment" att

def imageKey (att : IngestionAttachment) : String :=
  "image_analysis/" ++ fileName "image" att

/-- The keys of the extractions of an attachment. -/
def extractionKeys (att : IngestionAttachment) : List String :=
  [textKey att, dataKey att, imageKey att]

/-- The keys a call may write, each with the attachment it writes for. -/
def targets (env : ToolEnv) (db : Db) (sid : Uuid) :
    StageCall → List (String × Option Uuid)
  | .writeArtifact input => [(input.key, none)]
  | .updateArtifact input _ => [(input.key, none)]
  | .runAttachmentExtraction ref =>
      match resolveAttachment env db sid ref with
      | none => []
      | some att => [(textKey att, some att.id), (dataKey att, some att.id)]
  | .analyzeImage ref =>
      match resolveAttachment env db sid ref with
      | none => []
      | some att => [(imageKey att, some att.id)]
  | .writeDraft _ => [("drafts/reply", none)]
  | .fillContractTemplate _ _ => [(contractDraftKey, none)]
  | _ => []

def SessionAction.targets (env : ToolEnv) (db : Db) (sid : Uuid) :
    SessionAction → List (String × Option Uuid)
  | .call c => Stages.targets env db sid c.call
  | .send _ => []
  | .write args _ => if args.sessionId = sid then [(args.key, none)] else []

/-- The keys of an attachment of the email are written for it alone. -/
def Minds (env : ToolEnv) (sid : Uuid) (a : SessionAction)
    (s : ToolState) : Prop :=
  ∀ att ∈ emailAttachments s.t.db sid,
    ∀ t ∈ a.targets env s.t.db sid, t.1 ∈ extractionKeys att →
      t.2 = some att.id

-- =============================================================== statements

/-- The text, the envelope and the findings that are written. -/
def textArgs (caller : Caller) (att : IngestionAttachment)
    (result : ExtractionResult) : WriteArgs :=
  extractArgs caller att (fileName "attachment" att) (textKey att)
    "extracted_text" "text/plain"
    (.value (.str (if result.ok then result.text else "")))

def dataArgs (caller : Caller) (att : IngestionAttachment)
    (result : ExtractionResult) : WriteArgs :=
  extractArgs caller att (fileName "attachment" att) (dataKey att)
    "extracted_data" "application/json"
    (.value (structuredOf (fileName "attachment" att)
      (if result.ok then result.text else "") result))

def imageArgs (env : ToolEnv) (caller : Caller)
    (att : IngestionAttachment) (found : Json) : WriteArgs :=
  extractArgs caller att (fileName "image" att) (imageKey att)
    "image_analysis" "application/json"
    (.value (normalizedFindings env (fileName "image" att) found))

/-- The row is a version that `write` made of the arguments. -/
def Written (env : ToolEnv) (args : WriteArgs) (r : Artifact) : Prop :=
  ∃ id version payload prior,
    payloadOf env.rt env.svc args = .ok payload
      ∧ { r with isLatest := true }
        = newArtifact env.rt args id version payload prior

/-- The artifact was made of the bytes of the attachment; `B` has the
bytes and the type of an attachment's file. -/
inductive OwnArtifact (env : ToolEnv)
    (B : IngestionAttachment → List UInt8 → Option String → Prop)
    (att : IngestionAttachment) (r : Artifact) : Prop
  | text {caller : Caller} {data : List UInt8} {mime : Option String}
      {result : ExtractionResult} : B att data mime →
      env.extract data (orText mime "application/octet-stream")
        (fileName "attachment" att) = .ok result →
      Written env (textArgs caller att result) r → OwnArtifact env B att r
  | data {caller : Caller} {data : List UInt8} {mime : Option String}
      {result : ExtractionResult} : B att data mime →
      env.extract data (orText mime "application/octet-stream")
        (fileName "attachment" att) = .ok result →
      Written env (dataArgs caller att result) r → OwnArtifact env B att r
  | image {caller : Caller} {data : List UInt8} {mime : Option String}
      {found : Json} : B att data mime →
      env.vision data (orText mime "image/png") (fileName "image" att)
        = .ok found →
      Written env (imageArgs env caller att found) r →
      OwnArtifact env B att r

/-- What was read from the file of an attachment, in a state of the
session. -/
def ReadIn (env : ToolEnv) (sid : Uuid)
    (G : SessionAction → ToolState → Prop) (start : ToolState)
    (att : IngestionAttachment) (data : List UInt8)
    (mime : Option String) : Prop :=
  ∃ s, Lts.Reachable (sessionStep env sid) G start s
    ∧ (run (rawBytes att) s).1 = .ok data
    ∧ (s.t.files att.id).mimeType = mime

/-- An artifact of the session under a key. -/
def HasArtifact (sid : Uuid) (db : Db) (k : String) : Prop :=
  ∃ r ∈ db.artifacts.rows, r.sessionId = sid ∧ r.key = k

/-- The members in which the two tools return keys. -/
def keyMembers : StageCall → List String
  | .runAttachmentExtraction _ => ["text_artifact_key", "data_artifact_key"]
  | .analyzeImage _ => ["artifact_key"]
  | _ => []

/-- The attachment of a call of the two tools. -/
def attachmentOf (env : ToolEnv) (db : Db) (sid : Uuid) :
    StageCall → Option IngestionAttachment
  | .runAttachmentExtraction ref => resolveAttachment env db sid ref
  | .analyzeImage ref => resolveAttachment env db sid ref
  | _ => none

/-- A member of what a tool returns. -/
def memberOf : ToolOutput → String → Option Json
  | .json (.obj members), name => Json.getMember members name
  | _, _ => none

/-- The keys that are returned are keys of artifacts, all of them the
attachment's own. -/
def Identifies (env : ToolEnv)
    (B : IngestionAttachment → List UInt8 → Option String → Prop)
    (sid : Uuid) (att : IngestionAttachment) (call : StageCall)
    (output : ToolOutput) (db : Db) : Prop :=
  ∀ name ∈ keyMembers call, ∃ k, memberOf output name = some (.str k)
    ∧ HasArtifact sid db k
    ∧ ∀ r ∈ db.artifacts.rows, r.sessionId = sid → r.key = k →
      OwnArtifact env B att r

/-- Extraction identity, in the runs whose steps meet `G`. -/
structure ExtractionIdentity (env : ToolEnv) (sid : Uuid)
    (start : ToolState) (G : SessionAction → ToolState → Prop) : Prop where
  returned : ∀ s, Lts.Reachable (sessionStep env sid) G start s →
    ∀ c, G (.call c) s → ∀ att ∈ emailAttachments s.t.db sid,
      attachmentOf env s.t.db sid c.call = some att →
      ∀ output s', run (c.program env sid) s = (.ok output, s') →
        Identifies env (ReadIn env sid G start) sid att c.call output
          s'.t.db
  kept : ∀ s, Lts.Reachable (sessionStep env sid) G start s →
    ∀ att ∈ emailAttachments s.t.db sid,
      ∀ r ∈ s.t.db.artifacts.rows, r.sessionId = sid →
        r.key ∈ extractionKeys att →
        OwnArtifact env (ReadIn env sid G start) att r
  apart : ∀ s, Lts.Reachable (sessionStep env sid) G start s →
    ∀ att ∈ emailAttachments s.t.db sid,
      ∀ att' ∈ emailAttachments s.t.db sid, ∀ r ∈ s.t.db.artifacts.rows,
        OwnArtifact env (ReadIn env sid G start) att r →
        OwnArtifact env (ReadIn env sid G start) att' r → att = att'

-- ===================================================================== rows

section Rows

variable {env : ToolEnv} {caller : Caller} {sid : Uuid}
  {B : IngestionAttachment → List UInt8 → Option String → Prop}
  {att att' : IngestionAttachment} {r : Artifact} {args : WriteArgs}
  {db : Db} {ref : String}

theorem Written.metadata (h : Written env args r) :
    r.metadata = .obj (args.metadata.getD []) := by
  obtain ⟨id, version, payload, prior, -, hrow⟩ := h
  exact congrArg Artifact.metadata hrow

/-- The metadata names the attachment. -/
theorem OwnArtifact.metadata (h : OwnArtifact env B att r) :
    Json.getMember r.metadata.members "attachment_id"
      = some (.str (toString att.id)) := by
  cases h with
  | text _ _ hwritten =>
      rw [hwritten.metadata]
      rfl
  | data _ _ hwritten =>
      rw [hwritten.metadata]
      rfl
  | image _ _ hwritten =>
      rw [hwritten.metadata]
      rfl

/-- An artifact is one attachment's own. -/
theorem OwnArtifact.id_unique (h : OwnArtifact env B att r)
    (h' : OwnArtifact env B att' r) : att.id = att'.id := by
  have hsame := h.metadata.symm.trans h'.metadata
  injection hsame with hsame
  injection hsame with hsame
  exact digits_injective (congrArg String.toList hsame)

/-- A version that is not the latest any more was written like before. -/
theorem Written.demoted (h : Written env args r) :
    Written env args { r with isLatest := false } := h

theorem OwnArtifact.demoted (h : OwnArtifact env B att r) :
    OwnArtifact env B att { r with isLatest := false } := by
  cases h with
  | text hB hextract hwritten => exact .text hB hextract hwritten.demoted
  | data hB hextract hwritten => exact .data hB hextract hwritten.demoted
  | image hB hvision hwritten => exact .image hB hvision hwritten.demoted

theorem emailAttachments_rows (h : att ∈ emailAttachments db sid) :
    att ∈ db.attachments.rows := by
  unfold emailAttachments at h
  split at h
  · cases h
  · exact (mem_attachmentsOf.mp h).1

/-- What a reference leads to is an attachment. -/
theorem resolveAttachment_rows
    (h : resolveAttachment env db sid ref = some att) :
    att ∈ db.attachments.rows := by
  cases hid : attachmentById db ref with
  | some b =>
      rw [resolve_of_id hid] at h
      injection h with h
      obtain ⟨id, -, hget⟩ := Option.bind_eq_some_iff.mp hid
      exact h ▸ (Table.get_some hget).1
  | none =>
      rw [resolve_of_name hid] at h
      exact emailAttachments_rows (List.mem_of_find?_eq_some h)

theorem eq_of_id (h : att ∈ db.attachments.rows)
    (h' : att' ∈ db.attachments.rows) (hid : att.id = att'.id) :
    att = att' :=
  List.inj_on_of_nodup_map db.attachments.nodup h h' hid

theorem textKey_ne_dataKey : textKey att ≠ dataKey att' := by
  intro h
  have hchar := congrArg (fun k => k.toList[10]?) h
  unfold textKey dataKey at hchar
  simp [String.toList_append] at hchar

theorem imageKey_ne_dataKey : imageKey att ≠ dataKey att' := by
  intro h
  have hchar := congrArg (fun k => k.toList[0]?) h
  unfold imageKey dataKey at hchar
  simp [String.toList_append] at hchar

end Rows

-- ================================================================ invariant

/-- The tables are those of the start, but for the artifacts; the ones
under the keys of an attachment of the email are its own, and where there
is an envelope there is a text. -/
structure Identified (env : ToolEnv)
    (B : IngestionAttachment → List UInt8 → Option String → Prop)
    (sid : Uuid) (db₀ db : Db) : Prop where
  frame : db = { db₀ with artifacts := db.artifacts }
  own : ∀ att ∈ emailAttachments db₀ sid, ∀ r ∈ db.artifacts.rows,
    r.sessionId = sid → r.key ∈ extractionKeys att →
      OwnArtifact env B att r
  paired : ∀ att ∈ emailAttachments db₀ sid,
    HasArtifact sid db (dataKey att) → HasArtifact sid db (textKey att)

/-- What may be written: nothing under a key of an attachment of the
email that is not its own, and an envelope only after the text. -/
structure MayWrite (env : ToolEnv)
    (B : IngestionAttachment → List UInt8 → Option String → Prop)
    (sid : Uuid) (db₀ db : Db) (args : WriteArgs) : Prop where
  own : args.sessionId = sid → ∀ att ∈ emailAttachments db₀ sid,
    args.key ∈ extractionKeys att → ∀ r, Written env args r →
      OwnArtifact env B att r
  paired : args.sessionId = sid → ∀ att ∈ emailAttachments db₀ sid,
    args.key = dataKey att → HasArtifact sid db (textKey att)

section Invariant

variable {env : ToolEnv} {caller : Caller} {sid id : Uuid}
  {B : IngestionAttachment → List UInt8 → Option String → Prop}
  {att att' : IngestionAttachment} {r row : Artifact} {args : WriteArgs}
  {db₀ db : Db} {artifacts : Table Artifact} {blobs blobs' : Blobs}
  {k : String} {s : ToolState}

/-- The rows after a write: the old ones, which stay under their keys,
and a new one. -/
theorem mem_written
    (h : write env.rt env.svc db.artifacts blobs args id
      = .ok (row, artifacts, blobs')) (hr : r ∈ artifacts.rows) :
    (∃ r₀ ∈ db.artifacts.rows, r = r₀ ∨ r = { r₀ with isLatest := false })
      ∨ (r.sessionId = args.sessionId ∧ r.key = args.key
        ∧ Written env args r) := by
  obtain ⟨payload, prior, hpayload, -, hrow, -, hrows, -⟩ := write_ok h
  rw [hrows] at hr
  rcases List.mem_append.mp hr with hr | hr
  · obtain ⟨r₀, hr₀, rfl⟩ := List.mem_map.mp hr
    refine Or.inl ⟨r₀, hr₀, ?_⟩
    split
    · exact Or.inr rfl
    · exact Or.inl rfl
  · rw [List.mem_singleton.mp hr, hrow]
    exact Or.inr ⟨rfl, rfl, _, _, payload, prior, hpayload, rfl⟩

theorem HasArtifact.written (hk : HasArtifact sid db k)
    (h : write env.rt env.svc db.artifacts blobs args id
      = .ok (row, artifacts, blobs')) :
    HasArtifact sid { db with artifacts := artifacts } k := by
  obtain ⟨r, hr, hsid, hkey⟩ := hk
  obtain ⟨payload, prior, -, -, -, -, hrows, -⟩ := write_ok h
  obtain ⟨r', hr', hsid', hkey'⟩ := mem_demoted prior hr
  refine ⟨r', ?_, hsid'.trans hsid, hkey'.trans hkey⟩
  show r' ∈ artifacts.rows
  rw [hrows]
  exact List.mem_append_left _ hr'

theorem hasArtifact_written
    (h : write env.rt env.svc db.artifacts blobs args id
      = .ok (row, artifacts, blobs')) :
    HasArtifact args.sessionId { db with artifacts := artifacts }
      args.key := by
  obtain ⟨-, -, hkey, hsid⟩ := write_holds h
  obtain ⟨payload, prior, -, -, -, -, hrows, -⟩ := write_ok h
  refine ⟨row, ?_, hsid, hkey⟩
  show row ∈ artifacts.rows
  rw [hrows]
  exact List.mem_append_right _ (List.mem_singleton_self row)

/-- A write that may be made keeps the invariant. -/
theorem Identified.written (h : Identified env B sid db₀ db)
    (hmay : MayWrite env B sid db₀ db args)
    (hwrite : write env.rt env.svc db.artifacts blobs args id
      = .ok (row, artifacts, blobs')) :
    Identified env B sid db₀ { db with artifacts := artifacts } := by
  refine { frame := ?_, own := ?_, paired := ?_ }
  · show { db with artifacts := artifacts } = _
    rw [h.frame]
  · intro att hatt r hr hsid hkey
    rcases mem_written hwrite hr with ⟨r₀, hr₀, rfl | rfl⟩
        | ⟨hsid', hkey', hwritten⟩
    · exact h.own att hatt r hr₀ hsid hkey
    · exact (h.own att hatt r₀ hr₀ hsid hkey).demoted
    · exact hmay.own (hsid'.symm.trans hsid) att hatt (hkey' ▸ hkey) r
        hwritten
  · rintro att hatt ⟨r, hr, hsid, hkey⟩
    rcases mem_written hwrite hr with ⟨r₀, hr₀, rfl | rfl⟩
        | ⟨hsid', hkey', -⟩
    · exact (h.paired att hatt ⟨r, hr₀, hsid, hkey⟩).written hwrite
    · exact (h.paired att hatt ⟨r₀, hr₀, hsid, hkey⟩).written hwrite
    · exact (hmay.paired (hsid'.symm.trans hsid) att hatt
        (hkey'.symm.trans hkey)).written hwrite

/-- A write by a tool: the invariant, the new artifact, and those that
were there. -/
theorem ends_identified (h : Identified env B sid db₀ s.t.db)
    (hmay : MayWrite env B sid db₀ s.t.db args) :
    Ends (writeArtifact env args id) (fun row s' =>
      row.key = args.key ∧ Identified env B sid db₀ s'.t.db
        ∧ HasArtifact args.sessionId s'.t.db args.key
        ∧ ∀ k, HasArtifact sid s.t.db k → HasArtifact sid s'.t.db k)
      (fun _ _ => True) s := by
  unfold Ends
  rw [run_writeArtifact]
  cases hwrite : write env.rt env.svc s.t.db.artifacts s.blobs args id with
  | error e => trivial
  | ok written =>
      obtain ⟨row, artifacts, blobs⟩ := written
      exact ⟨(write_holds hwrite).2.2.1, h.written hmay hwrite,
        hasArtifact_written hwrite, fun k hk => hk.written hwrite⟩

/-- A write under another key may be made. -/
theorem mayWrite_elsewhere (h : args.sessionId = sid →
    ∀ att ∈ emailAttachments db₀ sid, args.key ∉ extractionKeys att) :
    MayWrite env B sid db₀ db args where
  own := fun hsid att hatt hkey => absurd hkey (h hsid att hatt)
  paired := fun hsid att hatt hkey => by
    refine absurd ?_ (h hsid att hatt)
    rw [hkey]
    exact List.mem_cons_of_mem _ List.mem_cons_self

theorem ends_commit {α : Type} {a : α} {P : α → Db → Prop}
    (h : P a s.t.db) :
    Ends (emit .commit >>= fun _ => pure a) (fun a s' => P a s'.t.db)
      (fun _ _ => True) s := by
  rw [ends_bind]
  exact Raising.ends_modify.mpr (ends_pure.mpr h)

/-- What a tool reads from the file, and that it changes no table. -/
theorem ends_source : Ends (rawBytes att) (fun data s' => s'.t = s.t
    ∧ (run (rawBytes att) s).1 = .ok data) (fun _ _ => True) s := by
  have hkeeps : Keeps (fun s' => s'.t = s.t) (rawBytes att) := by
    unfold rawBytes
    refine query_keeps fun s' h => ?_
    split
    · exact h
    · have hemit : ∀ e, Keeps (fun s' => s'.t = s.t) (emit e) :=
        fun _ => Raising.keeps_modify fun _ h => h
      refine (hemit _).bind (fun _ => ?_) s' h
      refine query_keeps fun s' h => ?_
      split
      · exact h
      · exact h
  have ht := hkeeps s rfl
  unfold Ends
  cases hrun : run (rawBytes att) s with
  | mk result s' =>
      rw [hrun] at ht
      cases result with
      | ok data => exact ⟨ht, rfl⟩
      | error e => trivial

end Invariant

-- =================================================================== programs

section Programs

variable {env : ToolEnv} {caller : Caller} {sid id : Uuid}
  {B : IngestionAttachment → List UInt8 → Option String → Prop}
  {att att' : IngestionAttachment} {db₀ : Db} {s : ToolState}

/-- A tool that writes elsewhere, or nothing, keeps the invariant. -/
theorem perform_elsewhere {st : Stage} {call : StageCall}
    (hother : keyMembers call = [])
    (hfree : ∀ t ∈ targets st.env s.t.db sid call,
      ∀ att ∈ emailAttachments db₀ sid, t.1 ∉ extractionKeys att)
    (h : Identified st.env B sid db₀ s.t.db) :
    Ends (call.perform st caller) (fun _ s' =>
      Identified st.env B sid db₀ s'.t.db) (fun _ _ => True) s := by
  have hmay : ∀ {args : WriteArgs},
      (args.key, none) ∈ targets st.env s.t.db sid call →
      MayWrite st.env B sid db₀ s.t.db args := fun hmem =>
    mayWrite_elsewhere fun _ => hfree _ hmem
  cases call with
  | writeArtifact input =>
      show Ends (writeArtifactTool st.env caller input) _ _ s
      unfold writeArtifactTool
      rw [ends_bind]
      refine (ends_identified h (hmay List.mem_cons_self)).mono
        (fun row s₁ h => ?_) fun _ _ _ => trivial
      exact ends_commit h.2.1
  | updateArtifact input merge =>
      show Ends (updateArtifactTool st.env caller input merge) _ _ s
      unfold updateArtifactTool updateArtifact
      rw [ends_bind, ends_query]
      split
      · exact Raising.ends_throw.mpr trivial
      · rename_i hmade
        obtain ⟨content, rfl⟩ := updateFrom_args hmade
        refine (ends_identified h (hmay List.mem_cons_self)).mono
          (fun row s₁ h => ?_) fun _ _ _ => trivial
        exact ends_commit h.2.1
  | readArtifact key version => exact h
  | listArtifacts keyPrefix => exact h
  | runAttachmentExtraction ref => cases hother
  | analyzeImage ref => cases hother
  | writeDraft input =>
      show Ends (writeDraft st.env caller input) _ _ s
      unfold writeDraft
      rw [ends_query]
      split
      · exact Raising.ends_throw.mpr trivial
      · rw [ends_bind]
        refine (ends_identified h (hmay List.mem_cons_self)).mono
          (fun row s₁ h => ?_) fun _ _ _ => trivial
        rw [ends_bind]
        unfold insertDraft
        rw [ends_bind, Raising.ends_get]
        split
        · exact Raising.ends_throw.mpr trivial
        · exact Raising.ends_set.mpr (ends_commit h.2.1)
  | fillContractTemplate contractType fieldValues =>
      refine ends_map.mpr ?_
      unfold fillContractTemplate
      split
      · exact ends_pure.mpr h
      · dsimp only
        split
        · exact ends_pure.mpr h
        · split
          · exact ends_pure.mpr h
          · rw [ends_bind]
            refine (ends_identified h (hmay List.mem_cons_self)).mono
              (fun row s₁ h => ?_) fun _ _ _ => trivial
            exact ends_commit h.2.1
  | listContractTypes => exact h
  | getContractRequirements contractType => exact h

/-- What an attachment may write, when its keys are its own. -/
theorem mayWrite_own {args : WriteArgs} {db : Db}
    (howner : ∀ att' ∈ emailAttachments db₀ sid,
      args.key ∈ extractionKeys att' → att' = att)
    (hown : ∀ r, Written env args r → OwnArtifact env B att r)
    (hpaired : args.key = dataKey att → HasArtifact sid db (textKey att)) :
    MayWrite env B sid db₀ db args where
  own := fun _ att' hatt' hkey => (howner att' hatt' hkey) ▸ hown
  paired := fun _ att' hatt' hkey => by
    have hsame := howner att' hatt' (by
      rw [hkey]
      exact List.mem_cons_of_mem _ List.mem_cons_self)
    rw [hsame] at hkey ⊢
    exact hpaired hkey

/-- The names and the keys that a call returns, and the artifacts they
are kept under. -/
def Returns (sid : Uuid) (db : Db) (v : Json)
    (named : List (String × String)) : Prop :=
  ∀ n ∈ named, memberOf (.json v) n.1 = some (.str n.2)
    ∧ HasArtifact sid db n.2

/-- A member after those of a skip. -/
theorem memberOf_skip (name : String) {shown rest : List (String × Json)}
    {content : Content}
    (hshown : ∀ m ∈ shown, ∃ text, m = ("preview", .str text))
    (hskip : name ≠ "already_extracted") (hpreview : name ≠ "preview")
    (hfindings : name ≠ "findings") :
    memberOf (.json (.obj (("already_extracted", .bool true)
        :: shown ++ findingsMember content ++ rest))) name
      = Json.getMember rest name := by
  have hshown' : ∀ shown : List (String × Json),
      (∀ m ∈ shown, ∃ text, m = ("preview", .str text)) →
      ∀ rest, Json.getMember (shown ++ rest) name
        = Json.getMember rest name := by
    intro shown hall rest
    induction shown with
    | nil => rfl
    | cons m shown ih =>
        obtain ⟨text, rfl⟩ := hall _ List.mem_cons_self
        rw [List.cons_append, Json.getMember_cons,
          if_neg (Ne.symm hpreview)]
        exact ih fun m hm => hall m (List.mem_cons_of_mem _ hm)
  show Json.getMember _ name = _
  rw [List.cons_append, List.cons_append, Json.getMember_cons,
    if_neg (Ne.symm hskip), List.append_assoc, hshown' shown hshown]
  unfold findingsMember
  split
  · rw [List.singleton_append, Json.getMember_cons,
      if_neg (Ne.symm hfindings)]
  · rfl

/-- An extraction keeps the invariant and returns the keys of artifacts. -/
theorem ends_extract (hcaller : caller.sessionId = sid)
    (howner : ∀ att' ∈ emailAttachments db₀ sid,
      textKey att ∈ extractionKeys att'
        ∨ dataKey att ∈ extractionKeys att' → att' = att)
    (hB : ∀ data, (run (rawBytes att) s).1 = .ok data →
      B att data (s.t.files att.id).mimeType)
    (h : Identified env B sid db₀ s.t.db) :
    Ends (extractAttachment env caller att) (fun v s' =>
      Identified env B sid db₀ s'.t.db
        ∧ (att ∈ emailAttachments db₀ sid → Returns sid s'.t.db v
          [("text_artifact_key", textKey att),
            ("data_artifact_key", dataKey att)]))
      (fun _ _ => True) s := by
  subst hcaller
  unfold extractAttachment
  dsimp only
  rw [ends_bind]
  refine ends_skip.mono (fun skipped s₁ hs => ?_) fun _ _ _ => trivial
  obtain ⟨rfl, hskip⟩ := hs
  cases skipped with
  | some payload =>
      obtain ⟨hdata, shown, content, rfl, hshown⟩ := hskip _ rfl
      refine ends_pure.mpr ⟨h, fun hatt n hn => ?_⟩
      rcases List.mem_cons.mp hn with rfl | hn
      · refine ⟨?_, h.paired att hatt hdata⟩
        exact memberOf_skip "text_artifact_key" hshown (by decide)
          (by decide) (by decide)
      · rw [List.mem_singleton.mp hn]
        refine ⟨?_, hdata⟩
        exact memberOf_skip "data_artifact_key" hshown (by decide)
          (by decide) (by decide)
  | none =>
      dsimp only
      rw [ends_bind]
      refine ends_source.mono (fun data s₂ hs => ?_) fun _ _ _ => trivial
      obtain ⟨ht, hdata⟩ := hs
      rw [ends_query, ends_bind]
      refine ends_attempt fun result hresult => ?_
      rw [← ht] at h
      rw [ht] at hresult
      rw [ends_bind]
      have htext : MayWrite env B caller.sessionId db₀ s₂.t.db
          (textArgs caller att result) :=
        mayWrite_own (fun att' hatt' hkey => howner att' hatt' (.inl hkey))
          (fun r hr => .text (hB data hdata) hresult hr)
          fun hkey => absurd hkey textKey_ne_dataKey
      refine (ends_identified h htext).mono (fun textRow s₃ hs => ?_)
        fun _ _ _ => trivial
      obtain ⟨htextKey, h, hhas, -⟩ := hs
      rw [ends_bind]
      have hdataArgs : MayWrite env B caller.sessionId db₀ s₃.t.db
          (dataArgs caller att result) :=
        mayWrite_own (fun att' hatt' hkey => howner att' hatt' (.inr hkey))
          (fun r hr => .data (hB data hdata) hresult hr) fun _ => hhas
      refine (ends_identified h hdataArgs).mono (fun dataRow s₄ hs => ?_)
        fun _ _ _ => trivial
      obtain ⟨hdataKey, h, hhas', hstays⟩ := hs
      refine ends_commit (P := fun v db => Identified env B
        caller.sessionId db₀ db ∧ (att ∈ emailAttachments db₀
          caller.sessionId → Returns caller.sessionId db v _))
        ⟨h, fun _ n hn => ?_⟩
      rcases List.mem_cons.mp hn with rfl | hn
      · exact ⟨congrArg (fun k => some (Json.str k)) htextKey,
          hstays _ hhas⟩
      · rw [List.mem_singleton.mp hn]
        exact ⟨congrArg (fun k => some (Json.str k)) hdataKey, hhas'⟩

/-- So does an analysis. -/
theorem ends_analyze (hcaller : caller.sessionId = sid)
    (howner : ∀ att' ∈ emailAttachments db₀ sid,
      imageKey att ∈ extractionKeys att' → att' = att)
    (hB : ∀ data, (run (rawBytes att) s).1 = .ok data →
      B att data (s.t.files att.id).mimeType)
    (h : Identified env B sid db₀ s.t.db) :
    Ends (analyzeAttachment env caller att) (fun v s' =>
      Identified env B sid db₀ s'.t.db ∧ Returns sid s'.t.db v
        [("artifact_key", imageKey att)]) (fun _ _ => True) s := by
  subst hcaller
  unfold analyzeAttachment
  dsimp only
  rw [ends_bind]
  refine ends_skip.mono (fun skipped s₁ hs => ?_) fun _ _ _ => trivial
  obtain ⟨rfl, hskip⟩ := hs
  cases skipped with
  | some payload =>
      obtain ⟨hkey, shown, content, rfl, hshown⟩ := hskip _ rfl
      refine ends_pure.mpr ⟨h, fun n hn => ?_⟩
      rw [List.mem_singleton.mp hn]
      refine ⟨?_, hkey⟩
      exact memberOf_skip "artifact_key" hshown (by decide) (by decide)
        (by decide)
  | none =>
      dsimp only
      rw [ends_bind]
      refine ends_source.mono (fun data s₂ hs => ?_) fun _ _ _ => trivial
      obtain ⟨ht, hdata⟩ := hs
      rw [ends_query, ends_bind]
      refine ends_attempt fun found hfound => ?_
      rw [← ht] at h
      rw [ht] at hfound
      rw [ends_bind]
      have hargs : MayWrite env B caller.sessionId db₀ s₂.t.db
          (imageArgs env caller att found) :=
        mayWrite_own howner (fun r hr => .image (hB data hdata) hfound hr)
          fun hkey => absurd hkey imageKey_ne_dataKey
      refine (ends_identified h hargs).mono (fun row s₃ hs => ?_)
        fun _ _ _ => trivial
      obtain ⟨hkey, h, hhas, -⟩ := hs
      refine ends_commit (P := fun v db => Identified env B
        caller.sessionId db₀ db ∧ Returns caller.sessionId db v _)
        ⟨h, fun n hn => ?_⟩
      rw [List.mem_singleton.mp hn]
      exact ⟨congrArg (fun k => some (Json.str k)) hkey, hhas⟩

/-- `send_draft` writes no artifact. -/
theorem sendDraft_db {draftId : String} :
    Keeps (fun s' => s'.t.db = s.t.db) (sendDraft env draftId) := by
  have hemit : ∀ e, Keeps (fun s' => s'.t.db = s.t.db) (emit e) :=
    fun _ => Raising.keeps_modify fun _ h => h
  unfold sendDraft
  split
  · exact Raising.keeps_pure
  · refine query_keeps fun s' h => ?_
    split
    · exact h
    · exact sendRow_keeps_of (fun _ _ => hemit _) (hemit _) (hemit _)
        (fun _ _ h => h) s' h

end Programs

-- ===================================================================== runs

section Runs

variable {env : ToolEnv} {sid : Uuid} {start s : ToolState}
  {B : IngestionAttachment → List UInt8 → Option String → Prop}
  {db₀ db : Db} {att : IngestionAttachment}

theorem Identified.emailAttachments (h : Identified env B sid db₀ db) :
    Tools.emailAttachments db sid = Tools.emailAttachments db₀ sid := by
  rw [h.frame]
  rfl

/-- Only the two tools write for an attachment. -/
theorem targets_owner {call : StageCall} (hother : keyMembers call = [])
    {t : String × Option Uuid} (ht : t ∈ targets env db sid call) :
    t.2 = none := by
  cases call with
  | writeArtifact input => exact congrArg Prod.snd (List.mem_singleton.mp ht)
  | updateArtifact input merge =>
      exact congrArg Prod.snd (List.mem_singleton.mp ht)
  | writeDraft input => exact congrArg Prod.snd (List.mem_singleton.mp ht)
  | fillContractTemplate contractType fieldValues =>
      exact congrArg Prod.snd (List.mem_singleton.mp ht)
  | runAttachmentExtraction ref => cases hother
  | analyzeImage ref => cases hother
  | _ => cases ht

/-- A key that an attachment's call may write is no other's. -/
theorem owner_of_minds {c : SessionCall} (hminds : Minds env sid (.call c) s)
    (h : Identified env B sid db₀ s.t.db)
    (hatt : att ∈ s.t.db.attachments.rows) {k : String}
    (hk : (k, some att.id) ∈ targets env s.t.db sid c.call) :
    ∀ att' ∈ Tools.emailAttachments db₀ sid, k ∈ extractionKeys att' →
      att' = att := by
  intro att' hatt' hkey
  rw [← h.emailAttachments] at hatt'
  have hid := Option.some.inj (hminds att' hatt' _ hk hkey)
  exact (eq_of_id hatt (emailAttachments_rows hatt') hid).symm

/-- What a call returns for an attachment of the email. -/
def ReturnsFor (env : ToolEnv) (sid : Uuid) (db₀ db : Db)
    (call : StageCall) (output : ToolOutput) (db' : Db) : Prop :=
  ∀ att ∈ Tools.emailAttachments db₀ sid,
    attachmentOf env db sid call = some att →
    ∀ name ∈ keyMembers call, ∃ k ∈ extractionKeys att,
      memberOf output name = some (.str k) ∧ HasArtifact sid db' k

/-- A call of a run keeps the invariant, and returns keys. -/
theorem call_identified {c : SessionCall}
    (hs : Lts.Reachable (sessionStep env sid) (Minds env sid) start s)
    (hminds : Minds env sid (.call c) s)
    (h : Identified env (ReadIn env sid (Minds env sid) start) sid
      start.t.db s.t.db) :
    Ends (c.program env sid) (fun output s' =>
      Identified env (ReadIn env sid (Minds env sid) start) sid start.t.db
          s'.t.db
        ∧ ReturnsFor env sid start.t.db s.t.db c.call output s'.t.db)
      (fun _ _ => True) s := by
  obtain ⟨runId, firstId, secondId, maxBytes, call⟩ := c
  have hother : keyMembers call = [] → Ends
      (SessionCall.program env sid
        ⟨runId, firstId, secondId, maxBytes, call⟩) (fun output s' =>
      Identified env (ReadIn env sid (Minds env sid) start) sid start.t.db
          s'.t.db
        ∧ ReturnsFor env sid start.t.db s.t.db call output s'.t.db)
      (fun _ _ => True) s := by
    intro hcall
    refine (perform_elsewhere hcall (fun t ht att hatt hkey => ?_) h).mono
      (fun output s' h => ⟨h, fun att _ _ name hname => ?_⟩)
      fun _ _ _ => trivial
    · have hsome := hminds att (h.emailAttachments ▸ hatt) t ht hkey
      rw [targets_owner hcall ht] at hsome
      cases hsome
    · rw [hcall] at hname
      cases hname
  cases call with
  | runAttachmentExtraction ref =>
      refine ends_map.mpr ?_
      unfold runAttachmentExtraction
      rw [ends_query]
      cases hatt : resolveAttachment env s.t.db sid ref with
      | none =>
          refine ends_pure.mpr ⟨h, fun att _ hsome => ?_⟩
          cases hatt.symm.trans hsome
      | some att =>
          have htargets : targets env s.t.db sid
              (.runAttachmentExtraction ref)
              = [(textKey att, some att.id), (dataKey att, some att.id)] := by
            unfold targets
            dsimp only
            rw [hatt]
          have howner := fun k => owner_of_minds (k := k) hminds h
            (resolveAttachment_rows hatt)
          refine (ends_extract rfl (fun att' hatt' hkey => ?_)
            (fun data hdata => ⟨s, hs, hdata, rfl⟩) h).mono
            (fun v s' hv => ⟨hv.1, fun att' hatt' hsome name hname => ?_⟩)
            fun _ _ _ => trivial
          · rcases hkey with hkey | hkey
            · exact howner _ (by rw [htargets]; simp) att' hatt' hkey
            · exact howner _ (by rw [htargets]; simp) att' hatt' hkey
          · obtain rfl := Option.some.inj (hatt.symm.trans hsome)
            have hreturns := hv.2 hatt'
            rcases List.mem_cons.mp hname with rfl | hname
            · exact ⟨textKey att, List.mem_cons_self,
                hreturns ("text_artifact_key", textKey att)
                  List.mem_cons_self⟩
            · rw [List.mem_singleton.mp hname]
              exact ⟨dataKey att, List.mem_cons_of_mem _ List.mem_cons_self,
                hreturns ("data_artifact_key", dataKey att)
                  (List.mem_cons_of_mem _ List.mem_cons_self)⟩
  | analyzeImage ref =>
      refine ends_map.mpr ?_
      unfold analyzeImage
      rw [ends_query]
      cases hatt : resolveAttachment env s.t.db sid ref with
      | none =>
          refine ends_pure.mpr ⟨h, fun att _ hsome => ?_⟩
          cases hatt.symm.trans hsome
      | some att =>
          have htarget : (imageKey att, some att.id)
              ∈ targets env s.t.db sid (.analyzeImage ref) := by
            unfold targets
            dsimp only
            rw [hatt]
            exact List.mem_singleton_self _
          refine (ends_analyze rfl (owner_of_minds hminds h
              (resolveAttachment_rows hatt) htarget)
            (fun data hdata => ⟨s, hs, hdata, rfl⟩) h).mono
            (fun v s' hv => ⟨hv.1, fun att' hatt' hsome name hname => ?_⟩)
            fun _ _ _ => trivial
          obtain rfl := Option.some.inj (hatt.symm.trans hsome)
          rw [List.mem_singleton.mp hname]
          exact ⟨imageKey att, by simp [extractionKeys],
            hv.2 ("artifact_key", imageKey att) List.mem_cons_self⟩
  | _ => exact hother rfl

/-- An action of a run keeps the invariant. -/
theorem step_identified {a : SessionAction} {s' : ToolState}
    (hs : Lts.Reachable (sessionStep env sid) (Minds env sid) start s)
    (hminds : Minds env sid a s)
    (h : Identified env (ReadIn env sid (Minds env sid) start) sid
      start.t.db s.t.db)
    (hstep : sessionStep env sid a s = some s') :
    Identified env (ReadIn env sid (Minds env sid) start) sid start.t.db
      s'.t.db := by
  have hends : Ends (a.program env sid) (fun _ s' =>
      Identified env (ReadIn env sid (Minds env sid) start) sid start.t.db
        s'.t.db) (fun _ _ => True) s := by
    cases a with
    | call c =>
        exact (call_identified hs hminds h).mono (fun _ _ h => h.1)
          fun _ _ h => h
    | send draftId =>
        refine ends_map.mpr (((sendDraft_db (s := s)).ends rfl).mono
          (fun _ s' heq => ?_) fun _ _ _ => trivial)
        rw [heq]
        exact h
    | write args id =>
        refine ends_map.mpr ((ends_identified h
          (mayWrite_elsewhere fun hsid att hatt hkey => ?_)).mono
            (fun _ _ h => h.2.1) fun _ _ h => h)
        have hmem : (args.key, none)
            ∈ (SessionAction.write args id).targets env s.t.db sid := by
          unfold SessionAction.targets
          dsimp only
          rw [if_pos hsid]
          exact List.mem_singleton_self _
        cases hminds att (h.emailAttachments ▸ hatt) _ hmem hkey
  obtain rfl := Option.some.inj hstep
  unfold settled
  unfold Ends at hends
  split at hends
  · rename_i hrun
    rw [hrun]
    exact hends
  · rename_i hrun
    rw [hrun]
    exact h

/-- Before the first call of a session there is nothing to identify. -/
theorem identified_start
    (hstart : ∀ r ∈ start.t.db.artifacts.rows, r.sessionId ≠ sid) :
    Identified env B sid start.t.db start.t.db where
  frame := rfl
  own := fun _ _ r hr hsid => absurd hsid (hstart r hr)
  paired := fun _ _ ⟨r, hr, hsid, _⟩ => absurd hsid (hstart r hr)

theorem reachable_identified
    (hstart : ∀ r ∈ start.t.db.artifacts.rows, r.sessionId ≠ sid)
    (hs : Lts.Reachable (sessionStep env sid) (Minds env sid) start s) :
    Identified env (ReadIn env sid (Minds env sid) start) sid start.t.db
      s.t.db :=
  hs.invariant (P := fun s => Identified env
    (ReadIn env sid (Minds env sid) start) sid start.t.db s.t.db)
    (identified_start hstart)
    fun _ _ _ hs h hminds hstep => step_identified hs hminds h hstep

/-- In a session in which no call writes under the keys of an attachment
of the email but for that attachment, what is extracted is its own. -/
theorem extraction_identity
    (hstart : ∀ r ∈ start.t.db.artifacts.rows, r.sessionId ≠ sid) :
    ExtractionIdentity env sid start (Minds env sid) where
  returned := by
    intro s hs c hminds att hatt hof output s' hrun name hname
    have h := reachable_identified hstart hs
    have hends := call_identified hs hminds h
    unfold Ends at hends
    rw [hrun] at hends
    obtain ⟨h', hreturns⟩ := hends
    rw [h.emailAttachments] at hatt
    obtain ⟨k, hk, hmember, hhas⟩ := hreturns att hatt hof name hname
    exact ⟨k, hmember, hhas, fun r hr hsid hkey =>
      h'.own att hatt r hr hsid (hkey ▸ hk)⟩
  kept := by
    intro s hs att hatt
    have h := reachable_identified hstart hs
    exact h.own att (h.emailAttachments ▸ hatt)
  apart := by
    intro s _ att hatt att' hatt' r _ hown hown'
    exact eq_of_id (emailAttachments_rows hatt)
      (emailAttachments_rows hatt') (hown.id_unique hown')

end Runs

-- =============================================================== scenarios

/-- The rows of Alice with two attachments, before the first call. -/
def sessionStart (first second : String) : ToolState :=
  { t :=
      { db := { Db.empty.join alice alice_fresh with
          attachments := ⟨[⟨30, 10, first⟩, ⟨31, 10, second⟩],
            (by decide : [30, 31].Nodup)⟩
          artifacts := .empty }
        emails := fun _ => ⟨none, none⟩
        files := sampleFiles
        mailboxes := .empty
        drafts := .empty }
    blobs := sampleBlobs
    effects := [] }

/-- An extraction with the ids `id` and `id + 1`. -/
def extraction (id : Uuid) (ref : String) : SessionCall :=
  { runId := none, firstId := id, secondId := id + 1, maxBytes := 1000
    call := .runAttachmentExtraction ref }

theorem sample_identity :
    ExtractionIdentity ToolEnv.sample 10 (sessionStart "a.pdf" "b.pdf")
      (Minds ToolEnv.sample 10) :=
  extraction_identity fun _ hr => absurd hr List.not_mem_nil

/-- Of two attachments of one name the second gets the artifacts of the
first. -/
theorem namesakes_confused : ¬ ∀ (env : ToolEnv) (sid : Uuid)
    (start : ToolState),
    (∀ r ∈ start.t.db.artifacts.rows, r.sessionId ≠ sid) →
    ExtractionIdentity env sid start Lts.Always := by
  intro hlaw
  have hidentity := hlaw ToolEnv.sample 10 (sessionStart "a.pdf" "a.pdf")
    fun _ hr => absurd hr List.not_mem_nil
  let first := SessionAction.call (extraction 80 "30")
  let s := settled (sessionStart "a.pdf" "a.pdf")
    (run (first.program ToolEnv.sample 10) (sessionStart "a.pdf" "a.pdf"))
  have hs : Lts.Reachable (sessionStep ToolEnv.sample 10) Lts.Always
      (sessionStart "a.pdf" "a.pdf") s :=
    .step first .init trivial rfl
  let second := (extraction 82 "31").program ToolEnv.sample 10
  have hatt : (⟨31, 10, "a.pdf"⟩ : IngestionAttachment)
      ∈ emailAttachments s.t.db 10 := by
    decide +kernel
  have hof : attachmentOf ToolEnv.sample s.t.db 10
      (extraction 82 "31").call = some ⟨31, 10, "a.pdf"⟩ := by
    decide +kernel
  have hkey : (run second s).1.toOption.bind
      (memberOf · "data_artifact_key")
      = some (.str "extracted_data/a.pdf") := by
    decide +kernel
  have hrow : ∃ r ∈ (run second s).2.t.db.artifacts.rows,
      r.sessionId = 10 ∧ r.key = "extracted_data/a.pdf"
        ∧ Json.getMember r.metadata.members "attachment_id"
          = some (.str "30") := by
    decide +kernel
  cases hrun : run second s with
  | mk result s' =>
      rw [hrun] at hkey hrow
      cases result with
      | error e => cases hkey
      | ok output =>
          obtain ⟨k, hk, -, hown⟩ := hidentity.returned s hs
            (extraction 82 "31") trivial _ hatt hof output s' hrun
            "data_artifact_key" (by decide)
          obtain ⟨r, hr, hsid, hkey', hmetadata⟩ := hrow
          have hsame : some (Json.str k)
              = some (.str "extracted_data/a.pdf") := hk.symm.trans hkey
          injection hsame with hsame
          injection hsame with hsame
          have howned := hown r hr hsid (hkey'.trans hsame.symm)
          exact absurd (hmetadata.symm.trans howned.metadata)
            (by decide +kernel)

end LegalBot.Stages
