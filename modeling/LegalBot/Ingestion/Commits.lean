/-
What a commit does to the ingestion tables.

# Two kinds of commits

- The commit of a new item appends its rows (`Appended`). It succeeds when
  the keys of the rows are new (`store_ok`), and it is then the atomic
  `upsert` of the orchestration model, on the database it finds
  (`upsert_of_store`).
- Every other transaction keeps the items, their details and their
  attachments, and adds no job (`IntakeKept`).

# Keys

`IngestWrites.keys` are the unique keys of some rows, written or
committed. A detail row and a job are told by their item, which is new
whenever they are (`IntakeLinked`).
-/
import LegalBot.Ingestion.Deliveries
import LegalBot.Orchestrator.Commits

namespace LegalBot

open Relational (HasKey Table)

-- ==================================================================== keys

/-- A unique key of the ingestion tables. -/
inductive IngestKey where
  | item (id : Uuid)
  | message (source externalId : String)
  | attachment (id : Uuid)
  | job (id : Uuid)

/-- The keys of rows. -/
def IngestWrites.keys (w : IngestWrites) : Set IngestKey
  | .item id => ∃ r ∈ w.items, r.id = id
  | .message source externalId =>
      ∃ r ∈ w.items, r.source = source ∧ r.externalId = externalId
  | .attachment id => ∃ r ∈ w.attachments, r.id = id
  | .job id => ∃ r ∈ w.jobs, r.id = id

/-- The committed rows. -/
def Db.ingested (db : Db) : IngestWrites :=
  { items := db.items.rows, emailMetadata := db.emailMetadata.rows
    attachments := db.attachments.rows, jobs := db.jobs.rows
    readied := [] }

/-- The detail rows, attachments and jobs are those of stored items. -/
structure IntakeLinked (db : Db) : Prop where
  details : ∀ m ∈ db.emailMetadata.rows,
    IngestKey.item m.ingestionItemId ∈ db.ingested.keys
  attachments : ∀ a ∈ db.attachments.rows,
    IngestKey.item a.ingestionItemId ∈ db.ingested.keys
  jobs : ∀ j ∈ db.jobs.rows,
    IngestKey.item j.ingestionItemId ∈ db.ingested.keys

theorem get_none_of_keys {ρ : Type} [HasKey ρ Uuid] {t : Table ρ}
    {k : Uuid} (h : ¬ ∃ r ∈ t.rows, HasKey.key r = k) :
    t.get k = none := by
  rw [Table.get_eq_none, List.mem_map]
  exact h

-- =============================================================== new items

/-- The job of a new item, in `ready`. -/
def IngestCall.job (c : IngestCall) (jobId itemId : Uuid) :
    ProcessingJob :=
  readiedJob c.now (newJob jobId itemId c.ownerUserId c.now)

/-- All that the transaction of a new item writes. -/
def IngestCall.complete (c : IngestCall) (itemId jobId : Uuid)
    (ids : List Uuid) : IngestWrites :=
  { c.rows itemId ids with jobs := [c.job jobId itemId] }

/-- The commit of a new item. -/
structure Appended (w : IngestWrites) (db db' : Db) : Prop where
  items : db'.items.rows = db.items.rows ++ w.items
  emailMetadata :
    db'.emailMetadata.rows = db.emailMetadata.rows ++ w.emailMetadata
  attachments :
    db'.attachments.rows = db.attachments.rows ++ w.attachments
  jobs : db'.jobs.rows = db.jobs.rows ++ w.jobs

section NewItems

variable {c : IngestCall} {itemId jobId : Uuid} {ids : List Uuid}
  {w : IngestWrites} {now : Time} {db db' : Db}

/-- The rows it wrote have a place in the tables. -/
theorem store_appended (hw : w.readied = [])
    (h : w.store now db = .ok db') : Appended w db db' := by
  unfold IngestWrites.store at h
  simp only [hw, bind_ok, flushed_ok, pure_ok] at h
  obtain ⟨items, hitems, metadata, hmetadata, attachments, hattachments,
    jobs, hjobs, jobs', hready, rfl⟩ := h
  injection hready with hready
  subst hready
  exact {
    items := Table.insertAll_rows hitems
    emailMetadata := Table.insertAll_rows hmetadata
    attachments := Table.insertAll_rows hattachments
    jobs := Table.insertAll_rows hjobs }

/-- An attachment row has one of the ids that were drawn. -/
theorem mem_attachmentRows {a : IngestionAttachment}
    (h : a ∈ c.attachmentRows itemId ids) :
    a.id ∈ ids ∧ a.ingestionItemId = itemId := by
  obtain ⟨⟨id, name⟩, hmem, rfl⟩ := List.mem_map.mp h
  exact ⟨(List.of_mem_zip hmem).1, rfl⟩

theorem mem_details {m : EmailMetadata} (h : m ∈ c.details itemId) :
    m.ingestionItemId = itemId := by
  unfold IngestCall.details at h
  split at h
  · rw [List.mem_singleton.mp h]
  · cases h

theorem details_nodup :
    ((c.details itemId).map (HasKey.key (ρ := EmailMetadata))).Nodup := by
  unfold IngestCall.details
  split
  · exact List.nodup_singleton _
  · exact List.nodup_nil

theorem attachmentRows_ids
    (hlen : ids.length = c.mapped.attachments.length) :
    (c.attachmentRows itemId ids).map (·.id) = ids := by
  unfold IngestCall.attachmentRows
  rw [List.map_map]
  exact List.map_fst_zip hlen.le

theorem attachmentRows_names
    (hlen : ids.length = c.mapped.attachments.length) :
    (c.attachmentRows itemId ids).map (·.name)
      = c.mapped.attachments := by
  unfold IngestCall.attachmentRows
  rw [List.map_map]
  exact List.map_snd_zip hlen.ge

/-- The rows of a new item under new keys can be stored. -/
theorem store_ok (now : Time) (hlinked : IntakeLinked db)
    (hlen : ids.length = c.mapped.attachments.length)
    (hnodup : ids.Nodup)
    (hnew : ∀ k ∈ (c.complete itemId jobId ids).keys,
      k ∉ db.ingested.keys) :
    ∃ db', (c.complete itemId jobId ids).store now db = .ok db' := by
  have hitem : IngestKey.item itemId ∉ db.ingested.keys :=
    hnew (.item itemId) ⟨_, List.mem_singleton_self _, rfl⟩
  obtain ⟨items, hitems⟩ : ∃ t,
      Table.insertAll [c.item itemId] db.items = some t := by
    refine Table.insertAll_of_fresh (List.nodup_singleton _) ?_
    intro r hr
    rw [List.mem_singleton.mp hr]
    exact get_none_of_keys hitem
  obtain ⟨metadata, hmetadata⟩ : ∃ t,
      Table.insertAll (c.details itemId) db.emailMetadata = some t := by
    refine Table.insertAll_of_fresh details_nodup ?_
    intro m hm
    refine get_none_of_keys ?_
    rintro ⟨m', hm', hkey⟩
    have hof : m'.ingestionItemId = itemId := hkey.trans (mem_details hm)
    exact hitem (hof ▸ hlinked.details m' hm')
  obtain ⟨attachments, hattachments⟩ : ∃ t,
      Table.insertAll (c.attachmentRows itemId ids) db.attachments
        = some t := by
    refine Table.insertAll_of_fresh ?_ ?_
    · exact (attachmentRows_ids hlen).symm ▸ hnodup
    · intro a ha
      exact get_none_of_keys (hnew (.attachment a.id) ⟨a, ha, rfl⟩)
  obtain ⟨jobs, hjobs⟩ : ∃ t,
      Table.insertAll [c.job jobId itemId] db.jobs = some t := by
    refine Table.insertAll_of_fresh (List.nodup_singleton _) ?_
    intro j hj
    exact get_none_of_keys (hnew (.job j.id) ⟨j, hj, rfl⟩)
  refine ⟨{ db with
    items := items, emailMetadata := metadata
    attachments := attachments, jobs := jobs }, ?_⟩
  unfold IngestWrites.store
  simp only [bind_ok, flushed_ok, pure_ok]
  exact ⟨items, hitems, metadata, hmetadata, attachments, hattachments,
    jobs, hjobs, jobs, rfl, rfl⟩

/-- Insert the attachments one by one. -/
theorem insertAttachments_eq (pairs : List (Uuid × String)) :
    ∀ t : Table IngestionAttachment, insertAttachments itemId pairs t
      = Table.insertAll (pairs.map fun (id, name) =>
          { id := id, ingestionItemId := itemId, name := name }) t := by
  induction pairs with
  | nil => exact fun _ => rfl
  | cons pair rest ih =>
      intro t
      unfold insertAttachments
      rw [List.map_cons, Table.insertAll]
      cases t.insert { id := pair.1, ingestionItemId := itemId
                       name := pair.2 } with
      | none => rfl
      | some t' => exact ih t'

theorem insertDetail_eq (t : Table EmailMetadata) :
    insertDetail c.mapped itemId t
      = Table.insertAll (c.details itemId) t := by
  unfold insertDetail IngestCall.details
  split
  · unfold Table.insertAll
    cases t.insert { ingestionItemId := itemId
                     providerThreadId := c.mapped.providerThreadId } with
    | none => rfl
    | some t' => rfl
  · rfl

/-- Insert in `intake` and move to `ready`, or insert in `ready`. -/
theorem promoteToReady_new {jobs jobs' : Table ProcessingJob}
    (hnew : ∀ j ∈ jobs.rows, j.ingestionItemId ≠ itemId)
    (h : Table.insertAll [c.job jobId itemId] jobs = some jobs') :
    promoteToReady jobs c.now jobId itemId c.ownerUserId
      = some jobs' := by
  obtain ⟨-, hfresh⟩ := Table.insertAll_fresh h
  have hid : jobs.get jobId = none :=
    hfresh _ (List.mem_singleton_self _)
  have hfind : jobs.rows.find? (fun r => r.ingestionItemId = itemId)
      = none :=
    List.find?_eq_none.mpr fun j hj => by simpa using hnew j hj
  obtain ⟨jobs₁, hins⟩ :=
    Table.insert_of_fresh (r := newJob jobId itemId c.ownerUserId c.now)
      hid
  have hget : jobs₁.get (newJob jobId itemId c.ownerUserId c.now).id
      = some (newJob jobId itemId c.ownerUserId c.now) := by
    rw [Table.get_insert hins]
    exact if_pos rfl
  have hallowed : (JobState.intake, JobState.ready) ∈ allowedTransitions :=
    List.mem_cons_self
  have hintake : (newJob jobId itemId c.ownerUserId c.now).state
      = .intake := rfl
  unfold promoteToReady createForItem
  rw [hfind]
  simp only [hins, Option.map_some]
  rw [if_pos hintake]
  unfold transition
  rw [if_neg (not_not_intro hallowed)]
  simp only [hget, if_pos hintake]
  show some _ = some jobs'
  congr 1
  refine Table.ext_rows ?_
  rw [Table.insertAll_rows h]
  show jobs₁.rows.map _ = _
  rw [Table.insert_rows hins, List.map_append]
  congr 1
  · refine (List.map_congr_left fun j hj => ?_).trans (List.map_id _)
    have hne : ¬ j.id = (newJob jobId itemId c.ownerUserId c.now).id :=
      fun e => Table.get_eq_none.mp hid
        ((show HasKey.key j = jobId from e) ▸ List.mem_map_of_mem hj)
    exact if_neg fun hp => hne (of_decide_eq_true hp).1
  · simp [newJob, IngestCall.job, readiedJob]

/-- Where the item is stored, `upsert` changes nothing. -/
theorem upsert_found {mapped : MappedItem} {owner : String}
    (h : ∃ r ∈ db.items.rows, mapped.Matches r) :
    upsert db now mapped owner itemId jobId ids = .ok db := by
  obtain ⟨r, hr, hmatch⟩ := h
  have hany : (db.items.rows.any fun r =>
      r.source = mapped.source
        ∧ r.externalId = mapped.externalId) = true :=
    List.any_eq_true.mpr ⟨r, hr, decide_eq_true hmatch⟩
  unfold upsert createWithAttachments
  rw [if_pos hany]
  rfl

/-- Storing a new item is the atomic `upsert`. -/
theorem upsert_of_store (hlinked : IntakeLinked db)
    (hnew : ∀ k ∈ (c.complete itemId jobId ids).keys,
      k ∉ db.ingested.keys)
    (h : (c.complete itemId jobId ids).store c.now db = .ok db') :
    upsert db c.now c.mapped c.ownerUserId itemId jobId ids
      = .ok db' := by
  have hitem : IngestKey.item itemId ∉ db.ingested.keys :=
    hnew (.item itemId) ⟨_, List.mem_singleton_self _, rfl⟩
  have hmessage : IngestKey.message c.mapped.source c.mapped.externalId
      ∉ db.ingested.keys :=
    hnew (.message _ _) ⟨_, List.mem_singleton_self _, rfl, rfl⟩
  have hany : ¬ (db.items.rows.any fun r =>
      r.source = c.mapped.source
        ∧ r.externalId = c.mapped.externalId) = true := by
    intro hany
    obtain ⟨r, hr, hmatch⟩ := List.any_eq_true.mp hany
    exact hmessage ⟨r, hr, by simpa using hmatch⟩
  unfold IngestWrites.store at h
  simp only [bind_ok, flushed_ok, pure_ok] at h
  obtain ⟨items, hitems, metadata, hmetadata, attachments, hattachments,
    jobs, hjobs, jobs', hready, rfl⟩ := h
  injection hready with hready
  subst hready
  have hinsert : db.items.insert (c.item itemId) = some items := by
    have hone : Table.insertAll [c.item itemId] db.items = some items :=
      hitems
    unfold Table.insertAll at hone
    split at hone
    · rename_i t hins
      exact hins.trans hone
    · cases hone
  have hfresh : ∀ j ∈ db.jobs.rows, j.ingestionItemId ≠ itemId := by
    rintro j hj rfl
    exact hitem (hlinked.jobs j hj)
  have hpromote := promoteToReady_new hfresh hjobs
  unfold upsert createWithAttachments
  rw [if_neg hany]
  simp only [bind_ok, flushed_ok, pure_ok]
  refine ⟨_, ⟨items, hinsert, metadata, ?_, attachments, ?_, rfl⟩,
    ?_⟩
  · rw [insertDetail_eq]
    exact hmetadata
  · rw [insertAttachments_eq]
    exact hattachments
  · simp only [bind_ok, flushed_ok, pure_ok]
    exact ⟨jobs, hpromote, rfl⟩

end NewItems

-- ====================================================== other transactions

/-- A transaction that ingests nothing: the ingestion tables stay and no
job appears. -/
structure IntakeKept (db db' : Db) : Prop where
  items : db'.items = db.items := by rfl
  emailMetadata : db'.emailMetadata = db.emailMetadata := by rfl
  attachments : db'.attachments = db.attachments := by rfl
  jobs : ∀ {k}, db.jobs.get k = none → db'.jobs.get k = none := by
    exact fun h => h

section Others

variable {cfg : Settings} {now : Time} {db db' : Db} {tx : Tx}
  {jobs jobs' : Table ProcessingJob} {j k : Uuid}

theorem transition_none {f t : JobState} {extra : JobExtra}
    (h : transition jobs now j f t extra = .ok jobs')
    (h₀ : jobs.get k = none) : jobs'.get k = none := by
  obtain ⟨-, row, hrow, -, hget⟩ := transition_ok h
  rw [hget k, if_neg, h₀]
  rintro rfl
  rw [hrow] at h₀
  cases h₀

theorem skipInvalid_none {f t : JobState} {extra : JobExtra}
    (h₀ : jobs.get k = none) :
    (skipInvalid jobs (transition jobs now j f t extra)).get k = none := by
  cases h : transition jobs now j f t extra with
  | error e => exact h₀
  | ok jobs' => exact transition_none h h₀

theorem dispatchRows_none (now : Time) : ∀ (rows : List ProcessingJob)
    (jobs : Table ProcessingJob), jobs.get k = none →
    (dispatchRows now rows jobs).1.get k = none := by
  intro rows
  induction rows with
  | nil => exact fun _ h₀ => h₀
  | cons job rest ih =>
      intro jobs h₀
      unfold dispatchRows
      cases h : transition jobs now job.id .ready .dispatched
          JobExtra.none with
      | error e => exact ih jobs h₀
      | ok jobs' => exact ih jobs' (transition_none h h₀)

theorem reapStuck_none (h₀ : jobs.get k = none) :
    (reapStuck cfg jobs now).get k = none :=
  Table.get_updateWhere_none (Table.get_updateWhere_none h₀)

/-- Every transaction but `upsert` keeps the ingestion tables. -/
theorem commit_intakeKept (htx : tx.ingests = false)
    (h : tx.commit cfg now db = .ok db') : IntakeKept db db' := by
  cases tx with
  | upsert mapped owner itemId jobId ids => cases htx
  | dispatchOnce limit locked =>
      injection h with h
      subst h
      exact { jobs := dispatchRows_none now _ _ }
  | reapStuck =>
      injection h with h
      subst h
      exact { jobs := reapStuck_none }
  | retry job =>
      obtain ⟨jobs, hjobs, rfl⟩ := withJobs_ok h
      exact { jobs := transition_none hjobs }
  | cancel job reason =>
      obtain ⟨jobs, hjobs, rfl⟩ := withJobs_ok h
      exact { jobs := transition_none hjobs }
  | archive job =>
      obtain ⟨jobs, hjobs, rfl⟩ := withJobs_ok h
      exact { jobs := transition_none hjobs }
  | markFailed j f error errorKind =>
      obtain ⟨jobs, hjobs, rfl⟩ := withJobs_ok h
      exact { jobs := transition_none hjobs }
  | startPipeline j sid rid hex =>
      obtain ⟨job, jobs, sessions, runs, -, hjobs, -, -, rfl⟩ :=
        startPipeline_ok h
      exact { jobs := fun h₀ =>
        Table.get_updateWhere_none (transition_none hjobs h₀) }
  | resumeTransition rid =>
      obtain ⟨run, session, job, -, -, -, rfl⟩ := resumeTransition_ok h
      split
      · exact { jobs := skipInvalid_none }
      · exact {}
  | markRunStatus rid st =>
      obtain ⟨run, -, rfl⟩ := markRunStatus_ok h
      exact {}
  | finalizeJob sid rid =>
      obtain ⟨run, -, ⟨-, rfl⟩ | ⟨-, session, jobs, -, hjobs, rfl⟩⟩ :=
        finalizeJobIfPrimary_ok h
      · exact {}
      · exact { jobs := transition_none hjobs }
  | failJob rid exc =>
      obtain ⟨run, -, ⟨-, rfl⟩ | ⟨-, rfl⟩⟩ :=
        failPipelineJobForGraphError_ok h
      · exact {}
      · exact { jobs := skipInvalid_none }
  | pauseJob sid rid =>
      obtain ⟨run, -, ⟨-, rfl⟩ | ⟨-, session, -, rfl⟩⟩ :=
        transitionPipelineJob_ok h
      · exact {}
      · exact { jobs := skipInvalid_none }
  | writeProjection sid rid output ids =>
      obtain ⟨_, _, rfl, -⟩ := writeSessionProjection_ok h
      exact {}
  | openInterrupt id sid rid kind payload schema =>
      obtain ⟨interrupts, -, rfl⟩ :=
        Option.map_eq_some_iff.mp (flushed_ok.mp h)
      exact {}
  | resolve sid current resolution resolvedBy iid =>
      obtain ⟨interventions, -, rfl⟩ :=
        Option.map_eq_some_iff.mp (flushed_ok.mp h)
      exact {}
  | expireStalled =>
      injection h with h
      subst h
      exact {}
  | postMessage sid content index msgId rid =>
      obtain ⟨_, _, _, _, _, -, -, -, rfl⟩ := postMessage_ok h
      exact {}
  | handleReminder sid message wake payload index msgId rid =>
      obtain ⟨_, _, -, ⟨-, rfl⟩ | ⟨-, _, _, -, -, rfl⟩⟩ :=
        handleReminder_ok h
      · exact {}
      · exact {}
  | replay sid fromRun step ctx cp childId rid hex =>
      obtain ⟨_, _, _, _, -, -, -, rfl⟩ := replay_ok h
      exact {}
  | cancelActiveRun sid locked =>
      injection h with h
      subst h
      exact {}
  | archiveSession sid =>
      injection h with h
      subst h
      exact {}

end Others

end LegalBot
