/-
The object view of ingestion and its tables: the transaction of a mail
task is the atomic `upsert` on the rows of the items (`commit_upserts`),
which in turn is what the statements of a delivery come to
(`LegalBot.commit_upserts`).
-/
import LegalBot.Ingestion.Email
import LegalBot.Proofs.IngestOnce

namespace LegalBot.Mail

open Relational (HasKey Table)

/-- The rows of an item. -/
def IngestionItem.row (r : IngestionItem) : LegalBot.IngestionItem :=
  { id := r.id, source := r.source, externalId := r.externalId
    ownerUserId := r.ownerUserId }

def IngestionItem.detailRows (r : IngestionItem) :
    List LegalBot.EmailMetadata :=
  r.emailMetadata.toList.map fun m =>
    { ingestionItemId := r.id
      providerThreadId := m.detail.providerThreadId }

def IngestionItem.attachmentRows (r : IngestionItem) :
    List LegalBot.IngestionAttachment :=
  r.attachments.map fun a =>
    { id := a.id, ingestionItemId := r.id, name := a.name }

/-- The tables hold the rows of the items. -/
structure Laid (stored : List IngestionItem) (db : Db) : Prop where
  items : db.items.rows = stored.map (·.row)
  emailMetadata : db.emailMetadata.rows = stored.flatMap (·.detailRows)
  attachments : db.attachments.rows = stored.flatMap (·.attachmentRows)
  jobs : db.jobs.rows = stored.map (·.job)

/-- The call of `upsert`, as far as the tables read it. -/
def callOf (mb : Mailbox) (mapped : MappedItem)
    (specs : List AttachmentSpec) (now : Time) : IngestCall :=
  { mapped :=
      { source := mapped.source, externalId := mapped.externalId
        providerThreadId := mapped.detail.providerThreadId
        attachments := specs.map (·.name) }
    ownerUserId := mb.ownerUserId, now := now }

section Rows

variable {mb : Mailbox} {w : Nat} {s s' : MailState} {draw : Draw}
  {mapped : MappedItem} {specs : List AttachmentSpec} {db db' : Db}
  {items : List IngestionItem}

theorem newItem_attachmentRows :
    (newItem mb { mapped with attachments := specs } draw).attachmentRows
      = (callOf mb mapped specs draw.now).attachmentRows draw.itemId
          draw.attachmentIds := by
  unfold IngestionItem.attachmentRows IngestCall.attachmentRows newItem
    callOf
  rw [List.map_map, List.zip_map_right, List.map_map]
  rfl

theorem newItem_detailRows :
    (newItem mb { mapped with attachments := specs } draw).detailRows
      = (callOf mb mapped specs draw.now).details draw.itemId := by
  unfold IngestionItem.detailRows IngestCall.details newItem callOf
  by_cases hsource : mapped.source = "email"
  · simp only [if_pos hsource]
    rfl
  · simp only [if_neg hsource]
    rfl

/-- The rows of a new item go to the end of the tables. -/
theorem Laid.append (h : Laid items db)
    (happ : Appended ((callOf mb mapped specs draw.now).complete
      draw.itemId draw.jobId draw.attachmentIds) db db') :
    Laid (items ++ [newItem mb { mapped with attachments := specs } draw])
      db' := by
  refine { items := ?_, emailMetadata := ?_, attachments := ?_, jobs := ?_ }
  · rw [happ.items, h.items, List.map_append]
    rfl
  · rw [happ.emailMetadata, h.emailMetadata, List.flatMap_append,
      List.flatMap_singleton, newItem_detailRows]
    rfl
  · rw [happ.attachments, h.attachments, List.flatMap_append,
      List.flatMap_singleton, newItem_attachmentRows]
    rfl
  · rw [happ.jobs, h.jobs, List.map_append]
    rfl

/-- The keys of a new item are new. -/
theorem Laid.keys_new (mb : Mailbox) (specs : List AttachmentSpec)
    (h : Laid items db) (hfresh : draw.Fresh items)
    (hfind : (items.find? fun r => r.source = mapped.source
      ∧ r.externalId = mapped.externalId) = none) :
    ∀ k ∈ ((callOf mb mapped specs draw.now).complete draw.itemId
      draw.jobId draw.attachmentIds).keys, k ∉ db.ingested.keys := by
  intro k hk hheld
  cases k with
  | item id =>
      obtain ⟨r, hr, rfl⟩ := hk
      obtain ⟨r', hr', heq⟩ := hheld
      rw [List.mem_singleton.mp hr] at heq
      have hrow : r' ∈ db.items.rows := hr'
      rw [h.items] at hrow
      obtain ⟨r₀, hr₀, rfl⟩ := List.mem_map.mp hrow
      exact (hfresh.1 r₀ hr₀).1 heq
  | message source externalId =>
      obtain ⟨r, hr, rfl, rfl⟩ := hk
      obtain ⟨r', hr', heq⟩ := hheld
      rw [List.mem_singleton.mp hr] at heq
      have hrow : r' ∈ db.items.rows := hr'
      rw [h.items] at hrow
      obtain ⟨r₀, hr₀, rfl⟩ := List.mem_map.mp hrow
      exact List.find?_eq_none.mp hfind r₀ hr₀ (decide_eq_true heq)
  | attachment id =>
      obtain ⟨a, ha, rfl⟩ := hk
      obtain ⟨a', ha', heq⟩ := hheld
      have hrow : a' ∈ db.attachments.rows := ha'
      rw [h.attachments] at hrow
      obtain ⟨r₀, hr₀, hmem⟩ := List.mem_flatMap.mp hrow
      obtain ⟨a₀, ha₀, rfl⟩ := List.mem_map.mp hmem
      have hsame : a₀.id = a.id := heq
      have hdrawn : a₀.id ∈ draw.attachmentIds :=
        hsame ▸ (mem_attachmentRows ha).1
      exact (hfresh.1 r₀ hr₀).2.2 a₀ ha₀ hdrawn
  | job id =>
      obtain ⟨j, hj, rfl⟩ := hk
      obtain ⟨j', hj', heq⟩ := hheld
      rw [List.mem_singleton.mp hj] at heq
      have hrow : j' ∈ db.jobs.rows := hj'
      rw [h.jobs] at hrow
      obtain ⟨r₀, hr₀, rfl⟩ := List.mem_map.mp hrow
      exact (hfresh.1 r₀ hr₀).2.1 heq

/-- The transaction is an atomic `upsert`. -/
theorem commit_upserts (h : Laid s.items db) (hlinked : IntakeLinked db)
    (hs : s.commit mb w draw = some s') :
    ∃ mapped d specs, s.tasks mb w = .blobs mapped d specs [] ∧
      ∃ db', upsert db draw.now (callOf mb mapped specs draw.now).mapped
          mb.ownerUserId draw.itemId draw.jobId draw.attachmentIds
            = .ok db'
        ∧ Laid s'.items db' ∧ IntakeLinked db' := by
  unfold MailState.commit at hs
  split at hs
  · rename_i mapped d specs hpoint
    refine ⟨mapped, d, specs, hpoint, ?_⟩
    split at hs
    · rename_i row hfind
      injection hs with hs
      subst hs
      refine ⟨db, upsert_found ⟨row.row, ?_, ?_⟩, h, hlinked⟩
      · rw [h.items]
        exact List.mem_map_of_mem (List.mem_of_find?_eq_some hfind)
      · have hkey : row.source = mapped.source
            ∧ row.externalId = mapped.externalId := by
          simpa using List.find?_some hfind
        exact hkey
    · rename_i hfind
      simp only at hs
      split at hs
      · rename_i hd
        injection hs with hs
        subst hs
        have hlen : draw.attachmentIds.length
            = (callOf mb mapped specs draw.now).mapped.attachments.length :=
          hd.2.trans (List.length_map ..).symm
        have hnew := h.keys_new mb specs hd.1 hfind
        obtain ⟨db', hstore⟩ := store_ok draw.now hlinked hlen
          hd.1.2 hnew
        have happ := store_appended rfl hstore
        exact ⟨db', upsert_of_store hlinked hnew hstore, h.append happ,
          happ.linked hlinked⟩
      · cases hs
  · cases hs

end Rows

end LegalBot.Mail
