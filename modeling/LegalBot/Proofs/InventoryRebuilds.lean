/-
The inventory of a session: whether it is consistent, and what comes of
building it from itself.

# One inventory

Its counts are those of its rows, a row is marked as processed if one of
its keys is there and can be read, and the fields that were classified
before are kept (`Consistent`).

# The next one

`finalize_node` writes the inventory where the next one is built from.
Nothing that a row is made of is read there, so the rows are the same
(`SameSources`), and the fields come back from the column or from the
blob store. The store gives them back as they are. The column may put the
members of a dict in another order, which is the same dict but not the
same text, and the overview prints it. It does so once: a prior inventory
that was in the column has the order of the column already.
-/
import LegalBot.Agents.ExtractInventory
import LegalBot.Memory.Addresses
import LegalBot.Proofs.InventoryParts
import LegalBot.Proofs.LoneWrites
import LegalBot.Proofs.ThreadInventory

namespace LegalBot.Inventory

open Json (getMember setMember truthy textSize dumps)
open Memory (Attributes Found getOr)
open Programs
open VersionChain (rowsOf)

-- ============================================================== statements

/-- An entry of `attachments` is marked as processed. -/
def Processed (entry : Json) : Prop :=
  getMember entry.members "processed" = some (.bool true)

instance : DecidablePred Processed := fun entry => by
  unfold Processed
  infer_instance

/-- The keys of an entry. -/
def keyFields : List String :=
  ["data_artifact_key", "text_artifact_key", "image_artifact_key"]

/-- The counts are those of the entries, one for each attachment. -/
def Counted (email : SessionEmail) (inventory : Attributes)
    (entries : List Json) : Prop :=
  ∃ processed failed : Nat,
    getMember inventory "attachments_processed" = some (.int processed)
    ∧ getMember inventory "attachments_failed" = some (.int failed)
    ∧ getMember inventory "attachment_count" = some (.int entries.length)
    ∧ processed + failed = entries.length
    ∧ entries.length = email.attachments.length
    ∧ processed = entries.countP fun entry => Processed entry

/-- An entry is marked if one of its keys is there and can be read. -/
def MarkedRight (rt : Runtime) (src : Sources) (sid : Uuid)
    (entries : List Json) : Prop :=
  ∀ entry ∈ entries, Processed entry ↔ ∃ field ∈ keyFields, ∃ key,
    getMember entry.members field = some (.str key)
      ∧ Found rt src sid key

/-- The prior inventory, and the row it was read from. -/
def Prior (rt : Runtime) (src : Sources) (sid : Uuid) (row : Artifact)
    (prior : Attributes) : Prop :=
  read rt src.db.artifacts.rows src.blobs sid (.key "analysis/extracted")
    none = .ok (row, .value (.obj prior))

/-- The fields of the prior inventory are kept, but a blank summary is
filled from a body that is not blank. -/
def KeepsClassification (rt : Runtime) (src : Sources) (sid : Uuid)
    (email : SessionEmail) (inventory : Attributes) : Prop :=
  ∀ row prior, Prior rt src sid row prior →
    ∀ f ∈ classificationFields, ∀ v, v ≠ .null →
      getMember prior f = some v →
      getMember inventory f = some v
      ∨ f = "body_summary" ∧ truthy v = false
        ∧ strip email.bodyText ≠ ""
        ∧ getMember inventory f = some (bodySummary email)

/-- What is said of one inventory. -/
structure Consistent (rt : Runtime) (src : Sources) (sid : Uuid)
    (email : SessionEmail) (inventory : Attributes) : Prop where
  entries : ∃ entries, getMember inventory "attachments"
      = some (.arr entries)
    ∧ Counted email inventory entries ∧ MarkedRight rt src sid entries
  kept : KeepsClassification rt src sid email inventory

/-- The inventory does not go into the column. -/
def Large (svc : ArtifactService) (inventory : Attributes) : Prop :=
  svc.inlineMaxBytes < textSize (dumps (.obj inventory))

instance (svc : ArtifactService) (inventory : Attributes) :
    Decidable (Large svc inventory) := by
  unfold Large
  infer_instance

/-- The inventory is written, under an id that no blob has, and read back
by `json.loads` if it is in a blob; then the next one is built, and it is
as it should be. -/
def RebuildsAs (column : JsonbColumn) (rt : Runtime)
    (svc : ArtifactService) (src : Sources) (sid : Uuid)
    (inventory : Attributes) (asItShould : Attributes → Prop) : Prop :=
  ∀ floatRepr messages runId id done,
    src.blobs (blobRefOf sid id) = none →
    (Large svc inventory → LoadsBack rt (.obj inventory)) →
    finalizeNode rt floatRepr svc src messages sid runId id = .ok done →
    ∃ again, buildExtractInventory rt (src.saved column done) sid []
        = .ok again ∧ asItShould again

/-- Equal, as Python compares dicts. -/
def SameMembers (d d' : Attributes) : Prop :=
  ∀ k, getMember d' k = getMember d k

/-- The column has nothing to reorder: the inventory goes into a blob, or
the prior inventory was in the column, or its fields have the order of
the column anyway. -/
def KeepsOrder (column : JsonbColumn) (rt : Runtime)
    (svc : ArtifactService) (src : Sources) (sid : Uuid)
    (inventory : Attributes) : Prop :=
  Large svc inventory
  ∨ ∀ row prior, Prior rt src sid row prior → row.storage = .inline
    ∨ ∀ f ∈ classificationFields, ∀ v, getMember prior f = some v →
      column.get v = v

/-- Equal but for the overview, with classified fields as the column gives
them back. -/
def SameButOverview (column : JsonbColumn) (d d' : Attributes) : Prop :=
  ∀ k, k ≠ "provided_overview" → getMember d' k = getMember d k
    ∨ k ∈ classificationFields
      ∧ getMember d' k = (getMember d k).map column.get

-- =============================================================== building

section Building

variable {rt : Runtime} {src : Sources} {sid : Uuid} {email : SessionEmail}
  {inventory c : Attributes} {rows : List Row}
  {threadRows : List ThreadRow}

/-- What is built is assembled from what was read. -/
theorem build_ok (hemail : loadEmailForSession src sid = some email)
    (hbuild : buildExtractInventory rt src sid [] = .ok inventory) :
    ∃ c rows threadRows, existingClassification rt src sid [] = .ok c
      ∧ email.attachments.mapM (attachmentRow rt src sid) = .ok rows
      ∧ collectThreadAttachmentRows rt src sid email.threadId
        = .ok threadRows
      ∧ inventory = assembled rt email c rows threadRows := by
  unfold buildExtractInventory at hbuild
  rw [hemail] at hbuild
  obtain ⟨c, hc, hbuild⟩ := returned_bind hbuild
  obtain ⟨rows, hrows, hbuild⟩ := returned_bind hbuild
  obtain ⟨threadRows, hthread, hbuild⟩ := returned_bind hbuild
  exact ⟨c, rows, threadRows, hc, hrows, hthread,
    (Except.ok.inj hbuild).symm⟩

theorem build_of (hemail : loadEmailForSession src sid = some email)
    (hc : existingClassification rt src sid [] = .ok c)
    (hrows : email.attachments.mapM (attachmentRow rt src sid) = .ok rows)
    (hthread : collectThreadAttachmentRows rt src sid email.threadId
      = .ok threadRows) :
    buildExtractInventory rt src sid []
      = .ok (assembled rt email c rows threadRows) := by
  unfold buildExtractInventory
  simp only [hemail, hc, hrows, hthread, ok_bind]
  rfl

/-- What was classified before. -/
theorem existingClassification_ok
    (h : existingClassification rt src sid [] = .ok c) :
    (∃ row prior, Prior rt src sid row prior
        ∧ c = classificationFromExisting prior)
      ∨ (∀ row prior, ¬ Prior rt src sid row prior) ∧ c = [] := by
  unfold existingClassification at h
  unfold Prior
  split at h
  · rename_i row prior hread
    exact Or.inl ⟨row, prior, hread, (Except.ok.inj h).symm⟩
  · rename_i found hother hread
    refine Or.inr ⟨fun row prior hprior => ?_, (Except.ok.inj h).symm⟩
    exact hother row prior (Except.ok.inj (hread.symm.trans hprior))
  · rename_i e hread
    split at h
    · refine Or.inr ⟨fun row prior hprior => ?_, (Except.ok.inj h).symm⟩
      rw [hread] at hprior
      cases hprior
    · cases h

theorem existingClassification_classified
    (h : existingClassification rt src sid [] = .ok c) : Classified c := by
  rcases existingClassification_ok h with ⟨row, prior, -, rfl⟩ | ⟨-, rfl⟩
  · exact classified_existing prior
  · exact classified_nil

/-- An active key was found, and has one of the prefixes. -/
theorem activeKeys_found {name : String} {mime : Option String}
    {keys : ActiveKeys} {key : String}
    (h : activeKeys rt src sid name mime = .ok keys)
    (hkey : keys.data = some key ∨ keys.text = some key
      ∨ keys.image = some key) :
    Found rt src sid key ∧ ∃ p ∈ artifactPrefixes, key = p ++ name := by
  obtain ⟨data, image, text, hdata, himage, htext, rfl⟩ :=
    Memory.activeKeys_returned h
  have hmapped : ∀ {p : String} {found : Option Content},
      p ∈ artifactPrefixes →
      readArtifactContent rt src sid (p ++ name) = .ok found →
      (found.map fun _ => p ++ name) = some key →
      Found rt src sid key ∧ ∃ p ∈ artifactPrefixes, key = p ++ name := by
    intro p found hp hread hsome
    obtain ⟨content, hcontent, rfl⟩ := Option.map_eq_some_iff.mp hsome
    exact ⟨⟨content, hcontent ▸ hread⟩, p, hp, rfl⟩
  split at hkey
  · rcases hkey with hkey | hkey | hkey
    · exact hmapped (by decide) himage hkey
    · cases hkey
    · exact hmapped (by decide) himage hkey
  · rcases hkey with hkey | hkey | hkey
    · exact hmapped (by decide) hdata hkey
    · exact hmapped (by decide) htext hkey
    · cases hkey

theorem ActiveKeys.ok_iff {keys : ActiveKeys} : keys.ok = true ↔ ∃ key,
    keys.data = some key ∨ keys.text = some key
      ∨ keys.image = some key := by
  unfold ActiveKeys.ok
  simp only [Bool.or_eq_true, Option.isSome_iff_exists, or_assoc]
  constructor
  · rintro (⟨key, h⟩ | ⟨key, h⟩ | ⟨key, h⟩)
    · exact ⟨key, Or.inl h⟩
    · exact ⟨key, Or.inr (Or.inl h)⟩
    · exact ⟨key, Or.inr (Or.inr h)⟩
  · rintro ⟨key, h | h | h⟩
    · exact Or.inl ⟨key, h⟩
    · exact Or.inr (Or.inl ⟨key, h⟩)
    · exact Or.inr (Or.inr ⟨key, h⟩)

end Building

-- ============================================================ one inventory

section Consistency

variable {rt : Runtime} {src : Sources} {sid : Uuid} {email : SessionEmail}
  {inventory c : Attributes} {rows : List Row}
  {threadRows : List ThreadRow}

theorem processed_json (row : Row) :
    Processed row.json ↔ row.keys.ok = true := by
  have hmember : getMember row.json.members "processed"
      = some (.bool row.keys.ok) := rfl
  unfold Processed
  rw [hmember]
  simp

/-- A key of a row, as the entry has it. -/
theorem key_json (row : Row) (key : String) :
    (∃ field ∈ keyFields,
        getMember row.json.members field = some (.str key))
      ↔ row.keys.data = some key ∨ row.keys.text = some key
        ∨ row.keys.image = some key := by
  have htext : ∀ text : Option String,
      some (textOrNull text) = some (.str key) ↔ text = some key := by
    intro text
    cases text with
    | none => simp [textOrNull]
    | some s => simp [textOrNull]
  have hdata : getMember row.json.members "data_artifact_key"
      = some (textOrNull row.keys.data) := rfl
  have htext' : getMember row.json.members "text_artifact_key"
      = some (textOrNull row.keys.text) := rfl
  have himage : getMember row.json.members "image_artifact_key"
      = some (textOrNull row.keys.image) := rfl
  simp only [keyFields, List.mem_cons, List.not_mem_nil, or_false,
    exists_eq_or_imp, exists_eq_left, hdata, htext', himage, htext]

theorem rows_marked
    (hrows : email.attachments.mapM (attachmentRow rt src sid)
      = .ok rows) : MarkedRight rt src sid (rows.map Row.json) := by
  intro entry hentry
  obtain ⟨row, hrow, rfl⟩ := List.mem_map.mp hentry
  obtain ⟨att, -, hatt⟩ :=
    (Memory.forall₂_exists (mapM_returned hrows)).2 row hrow
  have hkeys := (Memory.attachmentRow_keys hatt).2
  rw [processed_json, ActiveKeys.ok_iff]
  constructor
  · rintro ⟨key, hkey⟩
    obtain ⟨field, hfield, hmember⟩ := (key_json row key).mpr hkey
    exact ⟨field, hfield, key, hmember, (activeKeys_found hkeys hkey).1⟩
  · rintro ⟨field, hfield, key, hmember, -⟩
    exact ⟨key, (key_json row key).mp ⟨field, hfield, hmember⟩⟩

theorem assembled_counted (hc : Classified c)
    (hrows : email.attachments.mapM (attachmentRow rt src sid)
      = .ok rows) :
    Counted email (assembled rt email c rows threadRows)
      (rows.map Row.json) := by
  have hlen : rows.length = email.attachments.length :=
    (mapM_returned hrows).length_eq.symm
  have hcount : getMember (inventoryHead email c) "attachment_count"
      = some (.int email.attachments.length) :=
    head_other hc (by decide)
  refine ⟨rows.countP (·.keys.ok), rows.countP fun row => ¬ row.keys.ok,
    ?_, ?_, ?_, ?_, ?_, ?_⟩
  · rw [getMember_assembled (by decide), getMember_detailed,
      if_neg (by decide), if_neg (by decide), if_pos rfl]
  · rw [getMember_assembled (by decide), getMember_detailed,
      if_neg (by decide), if_pos rfl]
  · rw [getMember_assembled (by decide), getMember_detailed,
      if_neg (by decide), if_neg (by decide), if_neg (by decide),
      if_neg (by decide), hcount, List.length_map, hlen]
  · rw [List.length_map]
    exact (List.length_eq_countP_add_countP _).symm
  · rw [List.length_map, hlen]
  · rw [List.countP_map]
    exact List.countP_congr fun row _ => by
      simpa using (processed_json row).symm

theorem assembled_kept (hc : existingClassification rt src sid [] = .ok c) :
    KeepsClassification rt src sid email
      (assembled rt email c rows threadRows) := by
  intro row prior hprior f hf v hv hmember
  have hclassified := existingClassification_classified hc
  rw [assembled_field hf]
  rcases existingClassification_ok hc with
    ⟨row', prior', hprior', rfl⟩ | ⟨hnone, -⟩
  · have hsame := Except.ok.inj (hprior'.symm.trans hprior)
    simp only [Prod.mk.injEq, Content.value.injEq, Json.obj.injEq] at hsame
    obtain ⟨-, rfl⟩ := hsame
    have hfield : getMember (classificationFromExisting prior') f
        = some v := by
      rw [getMember_existing hf, hmember]
      exact Option.filter_some_pos (by simpa using hv)
    by_cases h : f = "body_summary"
        ∧ Fills email (classificationFromExisting prior')
    · obtain ⟨rfl, hfills⟩ := h
      refine Or.inr ⟨rfl, ?_, hfills.2, head_filled hclassified hfills⟩
      have hblank := hfills.1
      unfold getOr at hblank
      rw [hfield] at hblank
      by_contra htrue
      rw [Bool.not_eq_false] at htrue
      simp only [if_pos htrue] at hblank
      exact hblank htrue
    · rw [head_field hclassified hf fun e hfills => h ⟨e, hfills⟩]
      exact Or.inl hfield
  · exact absurd hprior (hnone row prior)

/-- What is built is consistent. -/
theorem build_consistent (hemail : loadEmailForSession src sid = some email)
    (hbuild : buildExtractInventory rt src sid [] = .ok inventory) :
    Consistent rt src sid email inventory := by
  obtain ⟨c, rows, threadRows, hc, hrows, -, rfl⟩ := build_ok hemail hbuild
  refine ⟨⟨rows.map Row.json, ?_,
    assembled_counted (existingClassification_classified hc) hrows,
    rows_marked hrows⟩, assembled_kept hc⟩
  rw [getMember_assembled (by decide), getMember_detailed,
    if_neg (by decide), if_neg (by decide), if_neg (by decide), if_pos rfl]

end Consistency

-- ============================================================== same sources

/-- The two hold the same emails and the same of every attachment. -/
structure SameSources (rt : Runtime) (src src' : Sources) : Prop where
  emails : ∀ sid, loadEmailForSession src' sid
    = loadEmailForSession src sid
  threads : ∀ sid, sessionIdsInEmailThread src'.db sid
    = sessionIdsInEmailThread src.db sid
  reads : ∀ sid, ∀ p ∈ artifactPrefixes, ∀ name,
    readArtifactContent rt src' sid (p ++ name)
      = readArtifactContent rt src sid (p ++ name)

section Same

variable {rt : Runtime} {src src' : Sources} {sid : Uuid}

theorem SameSources.activeKeys (h : SameSources rt src src')
    (name : String) (mime : Option String) :
    activeKeys rt src' sid name mime = activeKeys rt src sid name mime := by
  unfold Inventory.activeKeys
  simp only [h.reads sid "extracted_data/" (by decide),
    h.reads sid "image_analysis/" (by decide),
    h.reads sid "extracted_text/" (by decide)]

/-- The preview of active keys. -/
theorem SameSources.preview (h : SameSources rt src src') {name : String}
    {mime : Option String} {keys : ActiveKeys}
    (hkeys : Inventory.activeKeys rt src sid name mime = .ok keys) :
    attachmentContentPreview rt src' sid keys
      = attachmentContentPreview rt src sid keys := by
  have hread : ∀ key, keys.data = some key ∨ keys.text = some key
      ∨ keys.image = some key →
      readArtifactContent rt src' sid key
        = readArtifactContent rt src sid key := by
    intro key hkey
    obtain ⟨-, p, hp, rfl⟩ := activeKeys_found hkeys hkey
    exact h.reads sid p hp name
  have hstructured : structuredPreview rt src' sid keys
      = structuredPreview rt src sid keys := by
    unfold structuredPreview
    cases hkey : keys.data.or keys.image with
    | none => simp only
    | some key =>
        rw [Option.or_eq_some_iff] at hkey
        simp only [hread key (hkey.imp id fun hi => Or.inr hi.2)]
  unfold attachmentContentPreview
  rw [hstructured]
  cases hkey : keys.text with
  | none => simp only
  | some key => simp only [hread key (Or.inr (Or.inl hkey))]

theorem SameSources.attachmentRow (h : SameSources rt src src')
    (att : Attachment) :
    attachmentRow rt src' sid att = attachmentRow rt src sid att := by
  unfold Inventory.attachmentRow
  rw [h.activeKeys]
  cases hkeys : Inventory.activeKeys rt src sid att.name att.mimeType with
  | error e => exact Eq.refl (Except.error e)
  | ok keys => simp only [ok_bind, h.preview hkeys]

theorem SameSources.threadRow (h : SameSources rt src src')
    (subject : Option String) (rows : List ThreadRow) (att : Attachment) :
    threadRow rt src' sid subject rows att
      = threadRow rt src sid subject rows att := by
  unfold Inventory.threadRow
  split
  · rfl
  · rw [h.activeKeys]
    cases hkeys : Inventory.activeKeys rt src sid att.name att.mimeType with
    | error e => exact Eq.refl (Except.error e)
    | ok keys => simp only [ok_bind, h.preview hkeys]

theorem SameSources.collect (h : SameSources rt src src')
    (threadId : Option String) :
    collectThreadAttachmentRows rt src' sid threadId
      = collectThreadAttachmentRows rt src sid threadId := by
  have hrow : ∀ sibling subject,
      Inventory.threadRow rt src' sibling subject
        = Inventory.threadRow rt src sibling subject := by
    intro sibling subject
    funext rows att
    exact h.threadRow subject rows att
  unfold collectThreadAttachmentRows
  simp only [h.threads, h.emails, hrow]

end Same

-- ================================================================= next store

section Saved

variable {rt : Runtime} {svc : ArtifactService} {src : Sources}
  {column : JsonbColumn} {sid id : Uuid} {runId : Option Uuid}
  {inventory : Attributes} {done : Finalized} {c : Uuid × String}

/-- The column gives back what it gave. -/
def InColumn (column : JsonbColumn) (rows : List Artifact) : Prop :=
  ∀ r ∈ rows, r.stored column = r

theorem inColumn_map (rows : List Artifact) :
    InColumn column (rows.map (Artifact.stored column)) := by
  intro r hr
  obtain ⟨r, -, rfl⟩ := List.mem_map.mp hr
  exact Artifact.stored_stored r

theorem rowsOf_stored (c : Uuid × String) (rows : List Artifact) :
    rowsOf c (rows.map (Artifact.stored column))
      = (rowsOf c rows).map (Artifact.stored column) := by
  unfold rowsOf
  rw [List.filter_map]
  rfl

theorem filter_stored (version : Option Nat) (rows : List Artifact) :
    (rows.map (Artifact.stored column)).filter
        (readMatches c.1 (.key c.2) version)
      = (rows.filter (readMatches c.1 (.key c.2) version)).map
        (Artifact.stored column) := by
  rw [List.filter_map]
  rfl

theorem resolvePayload_inline {blobs : Blobs} {row : Artifact}
    (h : row.storage = .inline) :
    resolvePayload rt blobs (row.stored column)
      = .ok (.value ((row.contentInline.map column.get).getD .null)) := by
  have hstored : (row.stored column).storage = .inline := h
  unfold resolvePayload
  rw [hstored]
  rfl

theorem resolvePayload_blob {blobs : Blobs} {row : Artifact}
    (h : row.storage = .blob) :
    resolvePayload rt blobs (row.stored column)
      = resolvePayload rt blobs row := by
  have hstored : (row.stored column).storage = .blob := h
  unfold resolvePayload
  rw [hstored, h]
  rfl

/-- What can be read can be read as the column returns it. -/
theorem readsUnbroken_stored {rows : List Artifact} {blobs : Blobs}
    (h : ReadsUnbroken rt rows blobs) :
    ReadsUnbroken rt (rows.map (Artifact.stored column)) blobs := by
  intro c e hread
  cases hhas : hasVersion (rows.map (Artifact.stored column)) none c with
  | false =>
      rw [read_of_not_hasVersion hhas] at hread
      injection hread with hread
      exact ⟨rfl, hread ▸ rfl⟩
  | true =>
      have hrows : hasVersion rows none c = true := by
        unfold hasVersion at hhas ⊢
        rw [List.any_map] at hhas
        exact hhas
      cases hfound : readAt rt rows blobs none c with
      | error e' =>
          rw [(h c e' hfound).1] at hrows
          cases hrows
      | ok found =>
          obtain ⟨row, content⟩ := found
          obtain ⟨hone, hcontent⟩ := read_ok hfound
          have hone' : (rows.map (Artifact.stored column)).filter
              (readMatches c.1 (.key c.2) none) = [row.stored column] := by
            rw [filter_stored, hone]
            rfl
          rw [readAt, read_one hone'] at hread
          cases hstorage : row.storage with
          | inline =>
              rw [resolvePayload_inline hstorage] at hread
              cases hread
          | blob =>
              rw [resolvePayload_blob hstorage, hcontent] at hread
              cases hread

/-- A read of the same rows, in a store with more blobs. -/
theorem readAt_same {rows rows' : List Artifact} {blobs blobs' : Blobs}
    (hreads : ReadsUnbroken rt rows blobs)
    (hrows : rows'.filter (readMatches c.1 (.key c.2) none)
      = rows.filter (readMatches c.1 (.key c.2) none))
    (hgrow : BlobsGrow blobs blobs') :
    readAt rt rows' blobs' none c = readAt rt rows blobs none c := by
  cases hfound : readAt rt rows blobs none c with
  | ok found =>
      obtain ⟨row, content⟩ := found
      obtain ⟨hone, hcontent⟩ := read_ok hfound
      rw [readAt, read_one (hrows.trans hone),
        resolvePayload_grow hgrow hcontent]
      rfl
  | error e =>
      have hnone := (hreads c e hfound).1
      have hempty : rows.filter (readMatches c.1 (.key c.2) none) = [] :=
        List.filter_eq_nil_iff.mpr (List.any_eq_false.mp hnone)
      rw [read_of_not_hasVersion hnone] at hfound
      rw [← hfound]
      exact read_none (hrows.trans hempty)

/-- A write leaves the rows of other places, as the column returns
them. -/
theorem filter_saved {artifacts artifacts' : Relational.Table Artifact}
    {row : Artifact} {key : String}
    (hcolumn : InColumn column artifacts.rows)
    (hadds : AddsVersion sid key artifacts.rows row artifacts'.rows)
    (hc : c ≠ (sid, key)) :
    (artifacts'.rows.map (Artifact.stored column)).filter
        (readMatches c.1 (.key c.2) none)
      = artifacts.rows.filter (readMatches c.1 (.key c.2) none) := by
  have hkept : (rowsOf c artifacts.rows).map (Artifact.stored column)
      = (rowsOf c artifacts.rows).map id :=
    List.map_congr_left fun r hr =>
      hcolumn r (VersionChain.mem_rowsOf.mp hr).1
  rw [filter_readMatches, filter_readMatches, rowsOf_stored,
    hadds.others c hc, hkept, List.map_id]

theorem hasVersion_same {rows rows' : List Artifact}
    (hrows : rows'.filter (readMatches c.1 (.key c.2) none)
      = rows.filter (readMatches c.1 (.key c.2) none)) :
    hasVersion rows' none c = hasVersion rows none c := by
  have hfilter : ∀ l : List Artifact, hasVersion l none c = true
      ↔ l.filter (readMatches c.1 (.key c.2) none) ≠ [] := by
    intro l
    simp [hasVersion, List.filter_eq_nil_iff]
  rw [Bool.eq_iff_iff, hfilter, hfilter, hrows]

/-- What an inventory reads under a key with a slash. -/
theorem readArtifactContent_same {src' : Sources} {sid' : Uuid}
    {key : String} (hslash : '/' ∈ key.toList)
    (hreads : ReadsUnbroken rt src.db.artifacts.rows src.blobs)
    (hrows : src'.db.artifacts.rows.filter
        (readMatches sid' (.key (strip key)) none)
      = src.db.artifacts.rows.filter
        (readMatches sid' (.key (strip key)) none))
    (hgrow : BlobsGrow src.blobs src'.blobs) :
    readArtifactContent rt src' sid' key
      = readArtifactContent rt src sid' key := by
  have hread : readAt rt src'.db.artifacts.rows src'.blobs none
      (sid', strip key) = _ := readAt_same hreads hrows hgrow
  have hhas : hasVersion src'.db.artifacts.rows none (sid', strip key)
      = _ := hasVersion_same hrows
  unfold readArtifactContent
  rw [readResolved_own_eq, readResolved_own_eq,
    artifactKeyCandidates_of_slash hslash, List.map_singleton,
    List.find?_singleton, List.find?_singleton, hhas]
  cases hasVersion src.db.artifacts.rows none (sid', strip key) with
  | true => simp only [if_true, hread]
  | false => rfl

/-- The key of an attachment is not that of the inventory. -/
theorem strip_ne_extracted {p : String} (hp : p ∈ artifactPrefixes)
    (name : String) : strip (p ++ name) ≠ "analysis/extracted" := by
  intro h
  have hfirst : ∀ q ∈ artifactPrefixes, ∃ d rest, q.toList = d :: rest
      ∧ isSpace d = false ∧ d ≠ 'a' := by
    intro q hq
    simp only [artifactPrefixes, List.mem_cons, List.not_mem_nil,
      or_false] at hq
    rcases hq with rfl | rfl | rfl
    · exact ⟨_, _, rfl, by decide, by decide⟩
    · exact ⟨_, _, rfl, by decide, by decide⟩
    · exact ⟨_, _, rfl, by decide, by decide⟩
  obtain ⟨d, rest, hd, hspace, hne⟩ := hfirst p hp
  obtain ⟨v, w, hv, -, hsplit⟩ :=
    Memory.exists_stripChars (p ++ name).toList
  have hstripped : stripChars (p ++ name).toList
      = "analysis/extracted".toList := by
    rw [← h]
    exact (String.toList_ofList).symm
  rw [hstripped, String.toList_append, hd] at hsplit
  cases v with
  | nil =>
      -- the key would begin as the other one does
      injection hsplit with hchar
      exact hne hchar
  | cons d' v =>
      injection hsplit with hchar
      rw [hchar, hv d' List.mem_cons_self] at hspace
      cases hspace

/-- What the node does with an inventory that it built: it has no error
and is written. -/
theorem finalizeNode_ok {floatRepr : String → String}
    {messages : List Stages.Message} {email : SessionEmail}
    (hemail : loadEmailForSession src sid = some email)
    (hbuild : buildExtractInventory rt src sid [] = .ok inventory)
    (h : finalizeNode rt floatRepr svc src messages sid runId id
      = .ok done) :
    done.inventory = inventory
      ∧ ∃ row, write rt svc src.db.artifacts src.blobs
        (inventoryWrite sid runId inventory) id
          = .ok (row, done.artifacts, done.blobs) := by
  have herror : getOr inventory "error" .null = .null := by
    obtain ⟨c, rows, threadRows, hc, -, -, rfl⟩ := build_ok hemail hbuild
    have hnone : getMember (assembled rt email c rows threadRows) "error"
        = none := by
      rw [getMember_assembled (by decide), getMember_detailed,
        if_neg (by decide), if_neg (by decide), if_neg (by decide),
        if_neg (by decide), head_other
          (existingClassification_classified hc) (by decide)]
      rfl
    unfold getOr
    rw [hnone]
  unfold finalizeNode at h
  rw [hbuild, ok_bind] at h
  simp only [herror, truthy, Bool.false_eq_true, if_false] at h
  obtain ⟨written, hwritten, h⟩ := returned_bind h
  unfold writeExtractInventory at hwritten
  obtain ⟨⟨row, artifacts, blobs⟩, hwrite, hwritten⟩ :=
    returned_bind hwritten
  cases hwritten
  cases h
  exact ⟨rfl, row, hwrite⟩

/-- The next store has the same of every attachment. -/
theorem saved_same {a : WriteArgs} {row : Artifact}
    (hcolumn : InColumn column src.db.artifacts.rows)
    (hreads : ReadsUnbroken rt src.db.artifacts.rows src.blobs)
    (hkey : a.key = "analysis/extracted")
    (hgrow : BlobsGrow src.blobs done.blobs)
    (hwrite : write rt svc src.db.artifacts src.blobs a id
      = .ok (row, done.artifacts, done.blobs)) :
    SameSources rt src (src.saved column done) where
  emails := fun _ => rfl
  threads := fun _ => rfl
  reads := fun sid' p hp name => by
    have hne : (sid', strip (p ++ name)) ≠ (a.sessionId, a.key) :=
      fun h => strip_ne_extracted hp name (hkey ▸ (Prod.mk.inj h).2)
    have hrows : (src.saved column done).db.artifacts.rows
        = done.artifacts.rows.map (Artifact.stored column) := by
      show done.artifacts.rows.map _ = _
      simp
    have hfilter := filter_saved hcolumn (write_adds hwrite) hne
    rw [← hrows] at hfilter
    exact readArtifactContent_same (slash_mem_key hp) hreads hfilter hgrow

/-- What comes back of a value of the inventory. -/
def comesBack (column : JsonbColumn) (svc : ArtifactService)
    (inventory : Attributes) : Json → Json :=
  if Large svc inventory then fun v => v else column.get

theorem comesBack_reshaping : Reshaping (comesBack column svc inventory) := by
  unfold comesBack
  split
  · exact ⟨fun _ => Iff.rfl, fun _ => rfl⟩
  · exact ⟨fun _ => column.get_eq_null, fun _ => column.truthy_get⟩

/-- The payload of an inventory. -/
theorem payloadOf_inventory :
    payloadOf rt svc (inventoryWrite sid runId inventory)
      = .ok ⟨Json.encodeUtf8 (dumps (.obj inventory)),
        if Large svc inventory then .blob else .inline⟩ := by
  have hstorage : storageOf svc "application/json"
      (.value (.obj inventory))
        (Json.encodeUtf8 (dumps (.obj inventory))).length
      = if Large svc inventory then .blob else .inline := by
    by_cases hlarge : Large svc inventory
    · rw [if_pos hlarge]
      exact if_neg fun h => absurd h.2 (Nat.not_le.mpr hlarge)
    · rw [if_neg hlarge]
      exact if_pos ⟨rfl, Nat.not_lt.mp hlarge⟩
  rw [← hstorage]
  rfl

theorem written_storage {row : Artifact}
    (hwrite : write rt svc src.db.artifacts src.blobs
      (inventoryWrite sid runId inventory) id
        = .ok (row, done.artifacts, done.blobs)) :
    row.storage = if Large svc inventory then .blob else .inline := by
  obtain ⟨payload, prior, hpayload, -, rfl, -⟩ := write_ok hwrite
  rw [payloadOf_inventory] at hpayload
  cases hpayload
  rfl

/-- What the next build takes for the prior inventory. -/
theorem saved_prior {row : Artifact}
    (hloads : Large svc inventory → LoadsBack rt (.obj inventory))
    (hwrite : write rt svc src.db.artifacts src.blobs
      (inventoryWrite sid runId inventory) id
        = .ok (row, done.artifacts, done.blobs)) :
    ∃ existing, Prior rt (src.saved column done) sid (row.stored column)
        existing
      ∧ Reshaped (comesBack column svc inventory) inventory existing
      ∧ (¬ Large svc inventory →
        column.get (.obj inventory) = .obj existing) := by
  obtain ⟨hholds, hmime, -⟩ := write_holds hwrite
  have hstorage := written_storage hwrite
  have hone : (src.saved column done).db.artifacts.rows.filter
      (readMatches sid (.key "analysis/extracted") none)
      = [row.stored column] := by
    have hlatest := write_latest hwrite
    have hrows : (src.saved column done).db.artifacts.rows
        = done.artifacts.rows.map (Artifact.stored column) := by
      show done.artifacts.rows.map _ = _
      simp
    rw [hrows]
    exact (filter_stored (c := (sid, "analysis/extracted")) none _).trans
      (congrArg (List.map (Artifact.stored column)) hlatest)
  unfold Prior comesBack
  rw [read_one hone]
  by_cases hlarge : Large svc inventory
  · rw [if_pos hlarge] at hstorage ⊢
    refine ⟨inventory, ?_, fun k => Option.map_id'.symm,
      fun h => absurd hlarge h⟩
    rw [resolvePayload_blob hstorage]
    show (resolvePayload rt done.blobs row).map _ = _
    rw [hholds.resolve_value hmime (hloads hlarge)]
    rfl
  · rw [if_neg hlarge] at hstorage ⊢
    obtain ⟨existing, hexisting, hget⟩ := column.obj inventory
    refine ⟨existing, ?_, hget, fun _ => hexisting⟩
    unfold Holds at hholds
    rw [hstorage] at hholds
    obtain ⟨-, v, hv, hinline⟩ := hholds
    injection hv with hv
    rw [resolvePayload_inline hstorage, hinline, ← hv]
    show Except.ok (row.stored column,
      Content.value (column.get (.obj inventory))) = _
    rw [hexisting]

end Saved

-- ===================================================================== law

section Law

variable {rt : Runtime} {svc : ArtifactService} {src : Sources}
  {column : JsonbColumn} {sid : Uuid} {email : SessionEmail}
  {inventory c : Attributes} {rows : List Row}
  {threadRows : List ThreadRow}

/-- The members of a prior inventory in the column stay as they are. -/
theorem prior_inline {row : Artifact} {prior : Attributes} {f : String}
    {v : Json} (hcolumn : InColumn column src.db.artifacts.rows)
    (hprior : Prior rt src sid row prior) (hstorage : row.storage = .inline)
    (hv : getMember prior f = some v) : column.get v = v := by
  obtain ⟨hone, hcontent⟩ := read_ok hprior
  have hrow : row ∈ src.db.artifacts.rows :=
    List.mem_of_mem_filter (hone ▸ List.mem_singleton_self row)
  have hinline : row.contentInline = some (.obj prior) := by
    unfold resolvePayload at hcontent
    rw [hstorage] at hcontent
    simp only [Except.ok.injEq, Content.value.injEq] at hcontent
    cases hvalue : row.contentInline with
    | none =>
        rw [hvalue] at hcontent
        cases hcontent
    | some w =>
        rw [hvalue] at hcontent
        exact congrArg some hcontent
  have hstored := congrArg Artifact.contentInline (hcolumn row hrow)
  rw [hinline] at hstored
  have hsame : column.get (.obj prior) = .obj prior := by
    unfold Artifact.stored at hstored
    rw [hinline] at hstored
    exact Option.some.inj hstored
  exact column.get_member hsame hv

/-- If the column has nothing to reorder, the fields come back as they
were. -/
theorem field_lasts (hcolumn : InColumn column src.db.artifacts.rows)
    (hc : existingClassification rt src sid [] = .ok c)
    (hinventory : inventory = assembled rt email c rows threadRows)
    (horder : KeepsOrder column rt svc src sid inventory) {f : String}
    (hf : f ∈ classificationFields) {v : Json}
    (hv : getMember inventory f = some v) :
    comesBack column svc inventory v = v := by
  unfold comesBack
  split
  · rfl
  · rename_i hlarge
    have hclassified := existingClassification_classified hc
    rw [hinventory, assembled_field hf] at hv
    by_cases h : f = "body_summary" ∧ Fills email c
    · obtain ⟨rfl, hfills⟩ := h
      rw [head_filled hclassified hfills] at hv
      cases hv
      exact column.str _
    · rw [head_field hclassified hf fun e hfills => h ⟨e, hfills⟩] at hv
      rcases existingClassification_ok hc with
        ⟨row, prior, hprior, rfl⟩ | ⟨-, rfl⟩
      · rw [getMember_existing hf] at hv
        have hmember := (Option.filter_eq_some_iff.mp hv).1
        rcases horder with hlarge' | horder
        · exact absurd hlarge' hlarge
        · rcases horder row prior hprior with hinline | hvalues
          · exact prior_inline hcolumn hprior hinline hmember
          · exact hvalues f hf v hmember
      · cases hv

/-- The next inventory is assembled from the same rows, and from what
came back of the last one. -/
theorem saved_build {floatRepr : String → String}
    {messages : List Stages.Message} {runId : Option Uuid} {id : Uuid}
    {done : Finalized}
    (hreads : ReadsUnbroken rt src.db.artifacts.rows src.blobs)
    (hcolumn : InColumn column src.db.artifacts.rows)
    (hemail : loadEmailForSession src sid = some email)
    (hbuild : buildExtractInventory rt src sid [] = .ok inventory)
    (hfresh : src.blobs (blobRefOf sid id) = none)
    (hback : Large svc inventory → LoadsBack rt (.obj inventory))
    (hdone : finalizeNode rt floatRepr svc src messages sid runId id
      = .ok done) :
    ∃ c rows threadRows existing,
      (existingClassification rt src sid [] = .ok c
        ∧ email.attachments.mapM (attachmentRow rt src sid) = .ok rows
        ∧ collectThreadAttachmentRows rt src sid email.threadId
          = .ok threadRows
        ∧ inventory = assembled rt email c rows threadRows)
      ∧ buildExtractInventory rt (src.saved column done) sid []
        = .ok (assembled rt email (classificationFromExisting existing) rows
          threadRows)
      ∧ Reshaped (comesBack column svc inventory) inventory existing
      ∧ (¬ Large svc inventory →
        column.get (.obj inventory) = .obj existing) := by
  obtain ⟨-, row, hwrite⟩ := finalizeNode_ok hemail hbuild hdone
  obtain ⟨payload, prior, -, hput, -⟩ := write_ok hwrite
  have hgrow : BlobsGrow src.blobs done.blobs :=
    hput ▸ putPayload_grow fun _ => hfresh
  have hsame : SameSources rt src (src.saved column done) :=
    saved_same hcolumn hreads rfl hgrow hwrite
  obtain ⟨existing, hprior, hreshaped, hinline⟩ :=
    @saved_prior rt svc src column sid id runId inventory done row hback
      hwrite
  obtain ⟨c, rows, threadRows, hc, hrows, hthread, hinventory⟩ :=
    build_ok hemail hbuild
  refine ⟨c, rows, threadRows, existing, ⟨hc, hrows, hthread, hinventory⟩,
    ?_, hreshaped, hinline⟩
  refine build_of ((hsame.emails sid).trans hemail) ?_ ?_
    ((hsame.collect email.threadId).trans hthread)
  · unfold existingClassification
    unfold Prior at hprior
    rw [hprior]
    rfl
  · rw [← hrows]
    exact congrArg (fun f => email.attachments.mapM f)
      (funext fun att => hsame.attachmentRow att)

/-- In the states that the writes of any number of transactions reach, as
the column returns them: an inventory can be built and is consistent, and
the next one is equal to it, but for the order in which the overview
prints the fields of a prior inventory that was no longer in a blob. -/
theorem inventory_settles {n : Nat} {s : ArtifactState n}
    (hreached : ArtifactReaches rt svc Lts.Always s)
    (hrows : src.db.artifacts.rows
      = s.committed.map (Artifact.stored column))
    (hblobs : src.blobs = s.blobs)
    (hloads : StoredLoads rt s.committed s.blobs)
    (hemail : loadEmailForSession src sid = some email) :
    ∃ inventory, buildExtractInventory rt src sid [] = .ok inventory
      ∧ Consistent rt src sid email inventory
      ∧ RebuildsAs column rt svc src sid inventory fun again =>
        SameButOverview column inventory again
        ∧ (KeepsOrder column rt svc src sid inventory →
          SameMembers inventory again) := by
  have hreads : ReadsUnbroken rt src.db.artifacts.rows src.blobs := by
    rw [hrows, hblobs]
    exact readsUnbroken_stored (reads_unbroken hreached hloads)
  have hcolumn : InColumn column src.db.artifacts.rows :=
    hrows ▸ inColumn_map s.committed
  obtain ⟨inventory, hbuild⟩ : Succeeds (buildExtractInventory rt src sid
    []) := inventory_built hreads []
  refine ⟨inventory, hbuild, build_consistent hemail hbuild, ?_⟩
  intro floatRepr messages runId id done hfresh hback hdone
  obtain ⟨c, rows, threadRows, existing, ⟨hc, -, -, hinventory⟩, hagain,
    hreshaped, -⟩ :=
      saved_build hreads hcolumn hemail hbuild hfresh hback hdone
  have hclassified := existingClassification_classified hc
  rw [hinventory] at hreshaped
  obtain ⟨hfields, hothers, hall⟩ := assembled_again
    (hinventory ▸ comesBack_reshaping) hclassified hreshaped
  refine ⟨_, hagain, fun k hk => ?_, fun horder => ?_⟩
  · by_cases hf : k ∈ classificationFields
    · have hk' := hfields k hf
      rw [← hinventory] at hk'
      unfold comesBack at hk'
      split at hk'
      · exact Or.inl (hk'.trans Option.map_id')
      · exact Or.inr ⟨hf, hk'⟩
    · rw [hinventory]
      exact Or.inl (hothers k hf hk)
  · rw [hinventory]
    refine hall fun f hf v hv => ?_
    rw [← hinventory] at hv ⊢
    exact field_lasts hcolumn hc hinventory horder hf hv

end Law

-- =============================================================== scenarios

/-- Alice's session, whose email has these attachments, over these
artifacts. -/
def aliceOver (attachments : List Attachment)
    (artifacts : Relational.Table Artifact) (blobs : Blobs) : Sources :=
  { db := { Db.empty.join alice alice_fresh with artifacts := artifacts }
    blobs := blobs
    emails := fun _ => some
      { providerMessageId := none, providerThreadId := none
        fromAddr := none, title := none, receivedAt := none
        bodyText := none, attachments := attachments } }

/-- The attachment was extracted, and no inventory was written yet. -/
def firstInventory : Sources :=
  aliceOver [⟨1, "nda.pdf", some "application/pdf", none⟩]
    ⟨(extracted 10).committed.map (Artifact.stored sortedColumn),
      by decide +kernel⟩ (extracted 10).blobs

/-- There is an email, and its inventory is written into the column, under
an id that no blob has. -/
def BuildsInline (rt : Runtime) (svc : ArtifactService) (src : Sources)
    (sid id : Uuid) : Prop :=
  src.blobs (blobRefOf sid id) = none
    ∧ (loadEmailForSession src sid).isSome = true
    ∧ (buildExtractInventory rt src sid []).map (fun inventory =>
        decide ((dumps (.obj inventory)).utf8ByteSize
          ≤ svc.inlineMaxBytes)) = .ok true
    ∧ (finalizeNode rt (fun r => r) svc src [] sid none id).map
        (fun _ => ()) = .ok ()

instance (rt : Runtime) (svc : ArtifactService) (src : Sources)
    (sid id : Uuid) : Decidable (BuildsInline rt svc src sid id) := by
  unfold BuildsInline
  infer_instance

theorem BuildsInline.finalized {rt : Runtime} {svc : ArtifactService}
    {src : Sources} {sid id : Uuid} (h : BuildsInline rt svc src sid id) :
    ∃ email done, loadEmailForSession src sid = some email
      ∧ finalizeNode rt (fun r => r) svc src [] sid none id = .ok done
      ∧ ∀ inventory, buildExtractInventory rt src sid [] = .ok inventory →
        ¬ Large svc inventory := by
  obtain ⟨-, hsome, hsize, hdone⟩ := h
  obtain ⟨email, hemail⟩ := Option.isSome_iff_exists.mp hsome
  obtain ⟨done, hrun⟩ := succeeds_of_map ⟨(), hdone⟩
  refine ⟨email, done, hemail, hrun, fun inventory hbuild => ?_⟩
  rw [hbuild] at hsize
  unfold Large
  rw [Json.textSize_eq_utf8ByteSize]
  exact Nat.not_lt.mpr (of_decide_eq_true (Except.ok.inj hsize))

theorem firstInventory_inline :
    BuildsInline Runtime.sample .default firstInventory 10 2 := by
  decide +kernel

/-- One row in the column, and none that the inventory comes from. -/
theorem firstInventory_rows :
    (Lts.run (ArtifactState.step Runtime.sample .default) (.init 1)
        (oneWrite (extractedIn 10))).isSome = true
      ∧ ((extracted 10).committed.all fun r => r.storage = .inline) = true
      ∧ (read Runtime.sample firstInventory.db.artifacts.rows
        firstInventory.blobs 10 (.key "analysis/extracted") none).map
          (fun _ => ()) = .error (.notFound "analysis/extracted") := by
  decide +kernel

theorem firstInventory_read (row : Artifact) (prior : Attributes) :
    ¬ Prior Runtime.sample firstInventory 10 row prior := by
  obtain ⟨-, -, hnone⟩ := firstInventory_rows
  intro hprior
  unfold Prior at hprior
  rw [hprior] at hnone
  cases hnone

theorem firstInventory_loads : StoredLoads Runtime.sample
    (extracted 10).committed (extracted 10).blobs := by
  obtain ⟨-, hinline, -⟩ := firstInventory_rows
  intro r hr hblob
  have hstorage := of_decide_eq_true (List.all_eq_true.mp hinline r hr)
  rw [hblob] at hstorage
  cases hstorage

/-- The inventory is written into the column and built again, and is the
same. -/
theorem first_inventory_settles : ∃ email inventory,
    loadEmailForSession firstInventory 10 = some email
      ∧ Consistent Runtime.sample firstInventory 10 email inventory
      ∧ ∃ done again, finalizeNode Runtime.sample (fun r => r) .default
          firstInventory [] 10 none 2 = .ok done
        ∧ buildExtractInventory Runtime.sample
          (firstInventory.saved sortedColumn done) 10 [] = .ok again
        ∧ SameMembers inventory again := by
  obtain ⟨email, done, hemail, hdone, hsmall⟩ :=
    firstInventory_inline.finalized
  have hrows : firstInventory.db.artifacts.rows
      = (extracted 10).committed.map (Artifact.stored sortedColumn) := rfl
  have hblobs : firstInventory.blobs = (extracted 10).blobs := rfl
  obtain ⟨inventory, hbuild, hconsistent, hrebuild⟩ :=
    inventory_settles (afterWrite_reached firstInventory_rows.1) hrows
      hblobs firstInventory_loads hemail
  obtain ⟨again, hagain, -, hsame⟩ := hrebuild _ [] none 2 done
    firstInventory_inline.1
    (fun hlarge => absurd hlarge (hsmall inventory hbuild)) hdone
  exact ⟨email, inventory, hemail, hconsistent, done, again, hdone,
    hagain, hsame (Or.inr fun row prior hprior =>
      absurd hprior (firstInventory_read row prior))⟩

/-- An inventory that the model wrote, with a dict whose members the column
puts in another order. -/
def modelWrote : Attributes :=
  [("referenced_documents",
      .obj [("title", .str "NDA"), ("id", .int 1)]),
    ("clauses", .arr (List.replicate 60 (.str "renews every year")))]

/-- `json.loads`, of its text. -/
def Runtime.modelWrote : Runtime :=
  { Runtime.sample with loads := fun _ => some (.obj Inventory.modelWrote) }

/-- It is too large for the column. -/
def modelPayload : Payload :=
  ⟨Json.encodeUtf8 (dumps (.obj modelWrote)), .blob⟩

/-- The inventory of the model, and no other artifact. -/
def reorderedInventory : Sources :=
  aliceOver [] ⟨[(newArtifact Runtime.modelWrote
      (inventoryWrite 10 none modelWrote) 1 1 modelPayload none).stored
        sortedColumn], List.nodup_singleton _⟩
    (putPayload (fun _ => none) (inventoryWrite 10 none modelWrote) 1
      modelPayload)

theorem modelWrote_large : Large ⟨1024, 20⟩ modelWrote := by
  have hlarge : 1024 < (dumps (.obj modelWrote)).utf8ByteSize := by
    decide +kernel
  rwa [← Json.textSize_eq_utf8ByteSize] at hlarge

theorem modelPayload_stored : payloadOf Runtime.modelWrote ⟨1024, 20⟩
    (inventoryWrite 10 none modelWrote) = .ok modelPayload := by
  rw [payloadOf_inventory, if_pos modelWrote_large]
  rfl

theorem modelWrote_reached :
    ArtifactReaches Runtime.modelWrote ⟨1024, 20⟩ Lts.Always
        (afterWrite Runtime.modelWrote ⟨1024, 20⟩
          (inventoryWrite 10 none modelWrote))
      ∧ reorderedInventory.db.artifacts.rows
        = (afterWrite Runtime.modelWrote ⟨1024, 20⟩
          (inventoryWrite 10 none modelWrote)).committed.map
            (Artifact.stored sortedColumn)
      ∧ reorderedInventory.blobs
        = (afterWrite Runtime.modelWrote ⟨1024, 20⟩
          (inventoryWrite 10 none modelWrote)).blobs := by
  obtain ⟨hreached, hrows, hblobs⟩ :=
    afterWrite_row modelPayload_stored (Nat.le_add_left 1 19)
  rw [hrows, hblobs]
  exact ⟨hreached, rfl, rfl⟩

theorem modelWrote_loads : StoredLoads Runtime.modelWrote
    (afterWrite Runtime.modelWrote ⟨1024, 20⟩
      (inventoryWrite 10 none modelWrote)).committed
    (afterWrite Runtime.modelWrote ⟨1024, 20⟩
      (inventoryWrite 10 none modelWrote)).blobs := by
  obtain ⟨-, hrows, hblobs⟩ :=
    afterWrite_row modelPayload_stored (Nat.le_add_left 1 19)
  have hloads : LoadsBack Runtime.modelWrote (.obj modelWrote) := by
    unfold LoadsBack Runtime.modelWrote
    rfl
  rw [hrows, hblobs]
  intro r hr _ _
  rw [List.mem_singleton.mp hr]
  exact ⟨.obj modelWrote,
    holds_newArtifact modelPayload_stored placed_putPayload, hloads⟩

theorem reorderedInventory_inline : BuildsInline Runtime.modelWrote
    ⟨1024, 20⟩ reorderedInventory 10 2 := by
  decide +kernel

/-- The overview of the inventory, and of what is assembled from what the
column gives back of it. -/
def overviews (email : SessionEmail) :
    Except ArtifactError (Option Json × Option Json) := do
  let c ← existingClassification Runtime.modelWrote reorderedInventory 10 []
  let rows ← email.attachments.mapM
    (attachmentRow Runtime.modelWrote reorderedInventory 10)
  let threadRows ← collectThreadAttachmentRows Runtime.modelWrote
    reorderedInventory 10 email.threadId
  let inventory := assembled Runtime.modelWrote email c rows threadRows
  let existing := (sortedColumn.get (.obj inventory)).members
  let again := assembled Runtime.modelWrote email
    (classificationFromExisting existing) rows threadRows
  return (getMember inventory "provided_overview",
    getMember again "provided_overview")

theorem overviews_differ : (loadEmailForSession reorderedInventory 10).map
    (fun email => (overviews email).map fun texts =>
      decide (texts.1 = texts.2)) = some (.ok false) := by
  decide +kernel

/-- The members of the dict that the model wrote come back in another
order, and the next overview prints them so. -/
theorem reordered_fields_differ : ¬ ∀ (n : Nat) (rt : Runtime)
    (svc : ArtifactService) (column : JsonbColumn) (s : ArtifactState n)
    (src : Sources) (sid : Uuid) (email : SessionEmail),
    ArtifactReaches rt svc Lts.Always s →
    src.db.artifacts.rows = s.committed.map (Artifact.stored column) →
    src.blobs = s.blobs → StoredLoads rt s.committed s.blobs →
    loadEmailForSession src sid = some email →
    ∃ inventory, buildExtractInventory rt src sid [] = .ok inventory
      ∧ Consistent rt src sid email inventory
      ∧ RebuildsAs column rt svc src sid inventory
        (SameMembers inventory) := by
  intro h
  obtain ⟨hreached, hrows, hblobs⟩ := modelWrote_reached
  obtain ⟨email, done, hemail, hdone, hinline⟩ :=
    reorderedInventory_inline.finalized
  obtain ⟨inventory, hbuild, -, hrebuild⟩ := h 1 _ _ _ _ _ 10 email hreached
    hrows hblobs modelWrote_loads hemail
  have hsmall := hinline inventory hbuild
  have hback : Large ⟨1024, 20⟩ inventory →
      LoadsBack Runtime.modelWrote (.obj inventory) :=
    fun hlarge => absurd hlarge hsmall
  have hfresh := reorderedInventory_inline.1
  obtain ⟨again, hagain, hsame⟩ := hrebuild _ [] none 2 done hfresh hback
    hdone
  have hreads : ReadsUnbroken Runtime.modelWrote
      reorderedInventory.db.artifacts.rows reorderedInventory.blobs := by
    rw [hrows, hblobs]
    exact readsUnbroken_stored (reads_unbroken hreached modelWrote_loads)
  obtain ⟨c, rows, threadRows, existing, ⟨hc, hmapped, hthread, rfl⟩,
    hagain', -, hcolumn⟩ := saved_build hreads
      (hrows ▸ inColumn_map _) hemail hbuild hfresh hback hdone
  have hdiffer := overviews_differ
  rw [hemail, Option.map_some, Option.some.injEq, overviews, hc, hmapped,
    hthread] at hdiffer
  simp only [ok_bind, hcolumn hsmall] at hdiffer
  have hne := of_decide_eq_false (Except.ok.inj hdiffer)
  rw [hagain] at hagain'
  cases hagain'
  exact hne (hsame "provided_overview").symm

end LegalBot.Inventory
