/-
`ingestion/items.py`: one transaction per inbound message, from the
`ON CONFLICT (source, external_id) DO NOTHING` insert to the job in
`ready`.
-/
import LegalBot.Db.Transaction
import LegalBot.Jobs.Service

namespace LegalBot

open Relational (HasKey Table)

/-- The fields of `MappedItem` that reach the modelled columns. -/
structure MappedItem where
  source : String
  externalId : String
  providerThreadId : Option String
  attachments : List String
  deriving DecidableEq, Repr

/-- The attachment rows, one fresh id each. -/
def insertAttachments (itemId : Uuid) :
    List (Uuid × String) → Table IngestionAttachment →
    Option (Table IngestionAttachment)
  | [], attachments => some attachments
  | (id, name) :: rest, attachments =>
      match attachments.insert
        { id := id, ingestionItemId := itemId, name := name } with
      | some attachments' => insertAttachments itemId rest attachments'
      | none => none

/-- The source-specific detail row. -/
def insertDetail (mapped : MappedItem) (itemId : Uuid)
    (emailMetadata : Table EmailMetadata) : Option (Table EmailMetadata) :=
  if mapped.source = "email" then
    emailMetadata.insert
      { ingestionItemId := itemId
        providerThreadId := mapped.providerThreadId }
  else some emailMetadata

/-- `create_with_attachments`: `none` when the item exists already. -/
def createWithAttachments (db : Db) (mapped : MappedItem)
    (ownerUserId : String) (itemId : Uuid) (attachmentIds : List Uuid) :
    Except TxError (Option Db) :=
  if db.items.rows.any fun r =>
      r.source = mapped.source ∧ r.externalId = mapped.externalId then
    .ok none
  else do
    let items ← flushed (db.items.insert
      { id := itemId, source := mapped.source
        externalId := mapped.externalId, ownerUserId := ownerUserId })
    let emailMetadata ← flushed (insertDetail mapped itemId
      db.emailMetadata)
    let attachments ← flushed (insertAttachments itemId
      (attachmentIds.zip mapped.attachments) db.attachments)
    pure (some { db with
      items := items, emailMetadata := emailMetadata
      attachments := attachments })

/-- `upsert`: a duplicate changes nothing, a new item gets its job. -/
def upsert (db : Db) (now : Time) (mapped : MappedItem)
    (ownerUserId : String) (itemId jobId : Uuid)
    (attachmentIds : List Uuid) : Except TxError Db := do
  match ← createWithAttachments db mapped ownerUserId itemId
      attachmentIds with
  | none => pure db
  | some db' =>
      let jobs ← flushed (promoteToReady db'.jobs now jobId itemId
        ownerUserId)
      pure { db' with jobs := jobs }

/-- A new item brings its own rows and leaves the orchestration tables
alone. -/
theorem createWithAttachments_ok {db db' : Db} {mapped : MappedItem}
    {owner : String} {itemId : Uuid} {ids : List Uuid}
    (h : createWithAttachments db mapped owner itemId ids
      = .ok (some db')) :
    ∃ items emailMetadata attachments,
      db' = { db with
        items := items, emailMetadata := emailMetadata
        attachments := attachments } := by
  unfold createWithAttachments at h
  split at h
  · cases h
  · simp only [bind_ok, pure_ok, Option.some.injEq] at h
    obtain ⟨items, -, emailMetadata, -, attachments, -, rfl⟩ := h
    exact ⟨items, emailMetadata, attachments, rfl⟩

/-- What `upsert` does to the orchestration tables. -/
theorem upsert_ok {db db' : Db} {now : Time} {mapped : MappedItem}
    {owner : String} {itemId jobId : Uuid} {ids : List Uuid}
    (h : upsert db now mapped owner itemId jobId ids = .ok db') :
    db' = db ∨ ∃ items emailMetadata attachments jobs,
      promoteToReady db.jobs now jobId itemId owner = some jobs
      ∧ db' = { db with
          items := items, emailMetadata := emailMetadata
          attachments := attachments, jobs := jobs } := by
  unfold upsert at h
  obtain ⟨created, hcreated, h⟩ := bind_ok.mp h
  cases created with
  | none => exact Or.inl (pure_ok.mp h).symm
  | some db₁ =>
      obtain ⟨items, emailMetadata, attachments, rfl⟩ :=
        createWithAttachments_ok hcreated
      simp only [bind_ok, pure_ok, flushed_ok] at h
      obtain ⟨jobs, hjobs, rfl⟩ := h
      exact Or.inr ⟨items, emailMetadata, attachments, jobs, hjobs, rfl⟩

/-- After `upsert` the item is there, and so are those before it. -/
theorem upsert_items {db db' : Db} {now : Time} {mapped : MappedItem}
    {owner : String} {itemId jobId : Uuid} {ids : List Uuid}
    (h : upsert db now mapped owner itemId jobId ids = .ok db') :
    (∀ row ∈ db.items.rows, row ∈ db'.items.rows)
      ∧ ∃ row ∈ db'.items.rows, row.source = mapped.source
        ∧ row.externalId = mapped.externalId := by
  unfold upsert createWithAttachments at h
  split at h
  · rename_i hany
    obtain rfl := pure_ok.mp h
    obtain ⟨row, hrow, hkey⟩ := List.any_eq_true.mp hany
    exact ⟨fun _ hrow => hrow, row, hrow, of_decide_eq_true hkey⟩
  · simp only [bind_ok, pure_ok, flushed_ok] at h
    obtain ⟨_, ⟨items, hins, emailMetadata, -, attachments, -, rfl⟩, h⟩ := h
    simp only [bind_ok, pure_ok, flushed_ok] at h
    obtain ⟨jobs, -, rfl⟩ := h
    have hrows := Table.insert_rows hins
    refine ⟨fun row hrow => ?_, ⟨itemId, mapped.source, mapped.externalId,
      owner⟩, ?_, rfl, rfl⟩
    · show row ∈ items.rows
      rw [hrows]
      exact List.mem_append_left _ hrow
    · show _ ∈ items.rows
      rw [hrows]
      exact List.mem_append_right _ (List.mem_singleton_self _)

end LegalBot
