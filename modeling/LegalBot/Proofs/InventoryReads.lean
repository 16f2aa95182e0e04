/-
What an inventory reads of the store.

# Reads

An inventory reads within one session. In a store with no broken artifact
each read returns (`readArtifactContent_returns`), with a content exactly
if the session has the artifact and it is not null
(`found_iff_read`), so an inventory can always be built
(`inventory_built`).

# Keys

An image has one key, any other attachment two (`kindPrefixes`). A row is
`ok` when one of these was found (`activeKeys_ok`).
-/
import LegalBot.Proofs.LastingRows
import LegalBot.Proofs.PhantomDocuments

namespace LegalBot.Inventory

open Memory (Attributes Found)
open Programs

-- ==================================================================== reads

section Reads

variable {rt : Runtime} {src : Sources} {sid : Uuid} {key : String}

theorem found_iff_resolved : Found rt src sid key ↔ ∃ row content,
    readResolved rt src.db src.blobs sid (.key key) none false
      = .ok (row, content) ∧ content ≠ .value .null := by
  unfold Found readArtifactContent
  constructor
  · rintro ⟨content, h⟩
    split at h
    · cases h
    · rename_i row content' hnull hread
      injection h with h
      injection h with h
      exact ⟨row, content', hread, hnull⟩
    · split at h
      · cases h
      · cases h
  · rintro ⟨row, content, hread, hnull⟩
    refine ⟨content, ?_⟩
    rw [hread]
    split
    · rename_i hcontent
      injection hcontent with hcontent
      exact absurd (Prod.mk.inj hcontent).2 hnull
    · rename_i hcontent
      injection hcontent with hcontent
      rw [(Prod.mk.inj hcontent).2]
    · rename_i herror
      cases herror

/-- An artifact is found if it can be read and is not null. -/
theorem found_iff_read (hslash : '/' ∈ key.toList) :
    Found rt src sid key ↔ ∃ row content,
      readAt rt src.db.artifacts.rows src.blobs none (sid, strip key)
        = .ok (row, content) ∧ content ≠ .value .null := by
  have hread : ∀ r,
      readResolved rt src.db src.blobs sid (.key key) none false = .ok r
      ↔ readAt rt src.db.artifacts.rows src.blobs none (sid, strip key)
        = .ok r := by
    intro r
    rw [readResolved_own_eq, artifactKeyCandidates_of_slash hslash,
      List.map_singleton, List.find?_singleton]
    cases hhas : hasVersion src.db.artifacts.rows none (sid, strip key) with
    | true => exact Iff.rfl
    | false =>
        rw [read_of_not_hasVersion hhas]
        constructor
        · intro h
          cases h
        · intro h
          cases h
  simp only [found_iff_resolved, hread]

/-- The read of an inventory returns. -/
theorem readArtifactContent_returns
    (hreads : ReadsUnbroken rt src.db.artifacts.rows src.blobs) :
    Succeeds (readArtifactContent rt src sid key) := by
  unfold readArtifactContent
  split
  · exact succeeds_ok
  · exact succeeds_ok
  · rename_i e herror
    rw [readResolved_own_eq] at herror
    split at herror
    · rename_i c hc
      have hhas := List.find?_some hc
      rw [(hreads c e herror).1] at hhas
      cases hhas
    · injection herror with herror
      rw [← herror]
      exact succeeds_ok

end Reads

-- ==================================================================== rows

section Rows

variable {rt : Runtime} {src : Sources} {sid : Uuid} {name : String}
  {mime : Option String}

/-- The prefixes of the keys that stand for an attachment. -/
def artifactPrefixes : List String :=
  ["extracted_data/", "extracted_text/", "image_analysis/"]

/-- Those of its kind. -/
def kindPrefixes (mime : Option String) : List String :=
  if isImage mime then ["image_analysis/"]
  else ["extracted_data/", "extracted_text/"]

/-- One of the keys of its kind was found. -/
def KindFound (rt : Runtime) (src : Sources) (sid : Uuid) (name : String)
    (mime : Option String) : Prop :=
  ∃ p ∈ kindPrefixes mime, Found rt src sid (p ++ name)

theorem kindPrefixes_subset : kindPrefixes mime ⊆ artifactPrefixes := by
  unfold kindPrefixes
  split
  · decide
  · decide

theorem slash_mem_key {p : String} (h : p ∈ artifactPrefixes) :
    '/' ∈ (p ++ name).toList := by
  rw [String.toList_append]
  refine List.mem_append_left _ ?_
  revert p
  decide

/-- The keys of an attachment are ok if one of its kind was found. -/
theorem activeKeys_ok {keys : ActiveKeys}
    (h : activeKeys rt src sid name mime = .ok keys) :
    keys.ok = true ↔ KindFound rt src sid name mime := by
  obtain ⟨data, image, text, hdata, himage, htext, hkeys⟩ :=
    Memory.activeKeys_returned h
  unfold KindFound kindPrefixes
  rw [hkeys]
  split
  · simp [ActiveKeys.ok, Memory.found_iff himage]
  · simp [ActiveKeys.ok, Memory.found_iff hdata, Memory.found_iff htext]

end Rows

-- =============================================================== inventory

section Building

variable {rt : Runtime} {src : Sources} {sid : Uuid}

theorem activeKeys_returns
    (hreads : ReadsUnbroken rt src.db.artifacts.rows src.blobs)
    {name : String} {mime : Option String} :
    Succeeds (activeKeys rt src sid name mime) := by
  unfold activeKeys
  refine succeeds_bind.mpr
    ((readArtifactContent_returns hreads).imp fun _ hd => ⟨hd, ?_⟩)
  refine succeeds_bind.mpr
    ((readArtifactContent_returns hreads).imp fun _ hi => ⟨hi, ?_⟩)
  refine succeeds_bind.mpr
    ((readArtifactContent_returns hreads).imp fun _ ht => ⟨ht, ?_⟩)
  split
  · exact succeeds_ok
  · exact succeeds_ok

theorem attachmentContentPreview_returns
    (hreads : ReadsUnbroken rt src.db.artifacts.rows src.blobs)
    {keys : ActiveKeys} :
    Succeeds (attachmentContentPreview rt src sid keys) := by
  have hstructured : Succeeds (structuredPreview rt src sid keys) := by
    unfold structuredPreview
    split
    · exact succeeds_ok
    · refine succeeds_bind.mpr
        ((readArtifactContent_returns hreads).imp fun _ hd => ⟨hd, ?_⟩)
      split
      · exact succeeds_ok
      · exact succeeds_ok
  unfold attachmentContentPreview
  refine succeeds_bind.mpr (hstructured.imp fun _ hp => ⟨hp, ?_⟩)
  split
  · exact succeeds_ok
  · refine succeeds_bind.mpr
      ((readArtifactContent_returns hreads).imp fun _ ht => ⟨ht, ?_⟩)
    split
    · exact succeeds_ok
    · exact succeeds_ok

theorem attachmentRow_returns
    (hreads : ReadsUnbroken rt src.db.artifacts.rows src.blobs)
    {att : Attachment} : Succeeds (attachmentRow rt src sid att) := by
  unfold attachmentRow
  refine succeeds_bind.mpr
    ((activeKeys_returns hreads).imp fun _ hk => ⟨hk, ?_⟩)
  exact succeeds_bind.mpr ((attachmentContentPreview_returns hreads).imp
    fun _ hp => ⟨hp, succeeds_ok⟩)

theorem threadRow_returns
    (hreads : ReadsUnbroken rt src.db.artifacts.rows src.blobs)
    {subject : Option String} {rows : List ThreadRow} {att : Attachment} :
    Succeeds (threadRow rt src sid subject rows att) := by
  unfold threadRow
  split
  · exact succeeds_ok
  · refine succeeds_bind.mpr
      ((activeKeys_returns hreads).imp fun _ hk => ⟨hk, ?_⟩)
    exact succeeds_bind.mpr
      ((attachmentContentPreview_returns hreads).imp
        fun _ hp => ⟨hp, succeeds_ok⟩)

theorem collectThreadAttachmentRows_returns
    (hreads : ReadsUnbroken rt src.db.artifacts.rows src.blobs)
    {threadId : Option String} :
    Succeeds (collectThreadAttachmentRows rt src sid threadId) := by
  unfold collectThreadAttachmentRows
  split
  · exact succeeds_ok
  · refine (succeeds_foldlM (C := fun _ => True) fun rows t _ =>
      ⟨fun _ => trivial, fun _ => ?_⟩).mpr fun _ _ => trivial
    split
    · exact succeeds_ok
    · split
      · exact succeeds_ok
      · exact (succeeds_foldlM (C := fun _ => True) fun rows att _ =>
          ⟨fun _ => trivial, fun _ => threadRow_returns hreads⟩).mpr
            fun _ _ => trivial

/-- The prior inventory is read, or there is none. -/
theorem existingClassification_returns
    (hreads : ReadsUnbroken rt src.db.artifacts.rows src.blobs)
    {classification : Attributes} :
    Succeeds (existingClassification rt src sid classification) := by
  unfold existingClassification
  split
  · exact succeeds_ok
  · exact succeeds_ok
  · rename_i e herror
    rw [if_pos (hreads (sid, "analysis/extracted") e herror).2]
    exact succeeds_ok

/-- An inventory can always be built. -/
theorem inventory_built
    (hreads : ReadsUnbroken rt src.db.artifacts.rows src.blobs)
    (classification : Attributes) :
    Succeeds (buildExtractInventory rt src sid classification) := by
  unfold buildExtractInventory
  split
  · exact succeeds_ok
  · refine succeeds_bind.mpr ((existingClassification_returns hreads).imp
      fun _ he => ⟨he, ?_⟩)
    refine succeeds_bind.mpr ((succeeds_mapM fun att _ =>
      attachmentRow_returns hreads).imp fun _ hrows => ⟨hrows, ?_⟩)
    exact succeeds_bind.mpr
      ((collectThreadAttachmentRows_returns hreads).imp
        fun _ ht => ⟨ht, succeeds_ok⟩)

end Building

end LegalBot.Inventory
