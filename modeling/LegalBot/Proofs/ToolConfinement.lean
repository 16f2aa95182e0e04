/-
Which tool calls are confined to their session.

# One job's rows

`AgreeOnJob` says that two databases have the same rows of one job: the
job, its sessions with their artifacts and drafts, its item with the
email, the attachments and the files, and the mailboxes of its owner. A
list of rows is in the order a query returns them.

# What is confined

The name path of `_resolve_attachment` joins through the session; the id
path, and the `SELECT` of `send_draft`, take any id there is. So a call
is confined when what its id names is the session's own (`NamesOwn`):
then the two runs of `Proofs/ToolRuns.lean` apply.

# What is not

An id that is not the session's own can be any row of another tenant in
the other database: a `Stranger` comes with an attachment of that id,
which is read (`lend`), or with a draft of that id (`post`), and a draft
that is there can be missing (`withdraw`). `tool_confined_iff` has both
directions.
-/
import LegalBot.Proofs.ToolRuns

namespace LegalBot.Tools

open Relational (HasKey Table)
open Firing (parseUuid)
open Raising

-- ============================================================== statements

/-- A call of one of the tools, with the id the model wrote. -/
inductive ToolCall where
  | extraction (attachmentId : String)
  | image (attachmentId : String)
  | send (draftId : String)
  deriving DecidableEq

/-- The tool that is called. -/
def ToolCall.program (env : ToolEnv) (caller : Caller) :
    ToolCall → ToolM Json
  | .extraction ref => runAttachmentExtraction env caller ref
  | .image ref => analyzeImage env caller ref
  | .send draftId => sendDraft env draftId

/-- What a call returns or raises, and what it has done. -/
def outcome (env : ToolEnv) (caller : Caller) (call : ToolCall)
    (t : ToolDb) (blobs : Blobs) : Except ToolError Json × List Effect :=
  ((run (call.program env caller) ⟨t, blobs, []⟩).1,
    (run (call.program env caller) ⟨t, blobs, []⟩).2.effects)

/-- Foreign keys lead to rows; a draft belongs to the job of its session,
and mail is received by a mailbox of the item's owner. -/
structure ToolDb.Consistent (t : ToolDb) : Prop where
  db : t.db.Consistent
  emails : ∀ e ∈ t.db.emailMetadata.rows, ∃ i,
    t.db.items.get e.ingestionItemId = some i
      ∧ ∀ id, (t.emails e.ingestionItemId).mailboxId = some id →
        ∃ m, t.mailboxes.get id = some m ∧ m.ownerUserId = i.ownerUserId
  attachments : ∀ a ∈ t.db.attachments.rows, ∃ i,
    t.db.items.get a.ingestionItemId = some i
  drafts : ∀ d ∈ t.drafts.rows, ∃ s,
    t.db.sessions.get d.sessionId = some s ∧ s.jobId = d.jobId

/-- The ids a call draws are new. -/
structure Caller.Fresh (caller : Caller) (db : Db) : Prop where
  first : Undrawn db.artifacts caller.firstId
  second : Undrawn db.artifacts caller.secondId
  distinct : caller.firstId ≠ caller.secondId

/-- The same rows and blobs of one job, and the same mailboxes of its
owner. -/
structure AgreeOnJob (job : ProcessingJob) (t t' : ToolDb)
    (blobs blobs' : Blobs) : Prop where
  jobs : t'.db.jobs.get job.id = t.db.jobs.get job.id
  sessions : ∀ s, s.jobId = job.id →
    (s ∈ t.db.sessions.rows ↔ s ∈ t'.db.sessions.rows)
  items : t'.db.items.get job.ingestionItemId
    = t.db.items.get job.ingestionItemId
  emails : t'.db.emailMetadata.get job.ingestionItemId
      = t.db.emailMetadata.get job.ingestionItemId
    ∧ t'.emails job.ingestionItemId = t.emails job.ingestionItemId
  attachments : attachmentsOf t'.db job.ingestionItemId
    = attachmentsOf t.db job.ingestionItemId
  files : ∀ att ∈ attachmentsOf t.db job.ingestionItemId,
    t'.files att.id = t.files att.id
      ∧ ∀ uri, (t.files att.id).rawUri = some uri → blobs' uri = blobs uri
  artifacts : ∀ s ∈ t.db.sessions.rows, s.jobId = job.id →
    sessionArtifacts t'.db.artifacts s.id
        = sessionArtifacts t.db.artifacts s.id
      ∧ ∀ r ∈ sessionArtifacts t.db.artifacts s.id, ∀ ref,
        r.blobRef = some ref → blobs' ref = blobs ref
  drafts : ∀ d, d.jobId = job.id →
    (d ∈ t.drafts.rows ↔ d ∈ t'.drafts.rows)
  mailboxes : ∀ m, m.ownerUserId = job.ownerUserId →
    (m ∈ t.mailboxes.rows ↔ m ∈ t'.mailboxes.rows)

/-- The draft of that id is one of the session. -/
def OwnDraft (t : ToolDb) (sid id : Uuid) : Prop :=
  ∃ d ∈ t.drafts.rows, d.id = id ∧ d.sessionId = sid

/-- A blob that is read is the file of one of the job's attachments, a
write is one in the session, and a draft that is handed over or marked
is one of the session. -/
def OwnEffect (t : ToolDb) (job : ProcessingJob) (sid : Uuid) :
    Effect → Prop
  | .readBlob uri => ∃ att ∈ attachmentsOf t.db job.ingestionItemId,
      (t.files att.id).rawUri = some uri
  | .write args _ => args.sessionId = sid
  | .callProvider id _ _ => OwnDraft t sid id
  | .markSent id => OwnDraft t sid id
  | .commit => True

/-- Rows of other jobs and owners make no difference to a call, and it
does nothing with them. -/
def Confined (env : ToolEnv) (caller : Caller) (job : ProcessingJob)
    (call : ToolCall) (t : ToolDb) (blobs : Blobs) : Prop :=
  (∀ t' blobs', t'.Consistent → caller.Fresh t'.db →
      AgreeOnJob job t t' blobs blobs' →
      outcome env caller call t' blobs' = outcome env caller call t blobs)
    ∧ ∀ e ∈ (outcome env caller call t blobs).2,
      OwnEffect t job caller.sessionId e

/-- The reference is no UUID, or that of one of the job's attachments. -/
def NamesOwnAttachment (t : ToolDb) (job : ProcessingJob) (ref : String) :
    Prop :=
  ∀ id, parseUuid (.str ref) = some id →
    ∃ att ∈ attachmentsOf t.db job.ingestionItemId, att.id = id

/-- It is no UUID, or that of one of the session's drafts, or that of a
draft of the job which gets to no provider. -/
def NamesOwnDraft (env : ToolEnv) (t : ToolDb) (job : ProcessingJob)
    (sid : Uuid) (draftId : String) : Prop :=
  ∀ id, parseUuid (.str draftId) = some id →
    ∃ d ∈ t.drafts.rows, d.id = id
      ∧ (d.sessionId = sid ∨ (d.jobId = job.id ∧ ¬ HandedOver env t d))

/-- What a call names is the session's own. -/
def NamesOwn (env : ToolEnv) (t : ToolDb) (job : ProcessingJob)
    (sid : Uuid) : ToolCall → Prop
  | .extraction ref => NamesOwnAttachment t job ref
  | .image ref => NamesOwnAttachment t job ref
  | .send draftId => NamesOwnDraft env t job sid draftId

-- =============================================================== agreement

section Agreement

variable {env : ToolEnv} {caller : Caller} {job : ProcessingJob}
  {session : Session} {t t' : ToolDb} {blobs blobs' : Blobs}
  {ref : String} {att : IngestionAttachment}

theorem mem_attachmentsOf {db : Db} {itemId : Uuid} :
    att ∈ attachmentsOf db itemId
      ↔ att ∈ db.attachments.rows ∧ att.ingestionItemId = itemId := by
  unfold attachmentsOf
  simp

/-- The item of a session is the item of its job, and has an email. -/
theorem itemOf_some {db : Db} {sid : Uuid} {item : IngestionItem}
    (hs : db.sessions.get sid = some session)
    (hjob : db.jobs.get session.jobId = some job)
    (h : itemOf db sid = some item) :
    db.items.get job.ingestionItemId = some item
      ∧ ∃ email, db.emailMetadata.get job.ingestionItemId = some email := by
  unfold itemOf at h
  simp only [hs, hjob, bind, Option.bind_some] at h
  obtain ⟨item', hitem, h⟩ := Option.bind_eq_some_iff.mp h
  obtain ⟨email, hemail, h⟩ := Option.bind_eq_some_iff.mp h
  injection h with h
  subst h
  have hid : item'.id = job.ingestionItemId := Table.key_of_get hitem
  exact ⟨hitem, email, hid ▸ hemail⟩

theorem id_of_itemOf {db : Db} {sid : Uuid} {item : IngestionItem}
    (hs : db.sessions.get sid = some session)
    (hjob : db.jobs.get session.jobId = some job)
    (h : itemOf db sid = some item) : item.id = job.ingestionItemId :=
  Table.key_of_get (itemOf_some hs hjob h).1

/-- What the joins of the tools find for a session of the job. -/
theorem itemOf_agree (h : AgreeOnJob job t t' blobs blobs')
    (hs : session ∈ t.db.sessions.rows)
    (hjob : t.db.jobs.get session.jobId = some job) :
    itemOf t'.db session.id = itemOf t.db session.id := by
  have hid : session.jobId = job.id := (Table.key_of_get hjob).symm
  have hs' := (h.sessions session hid).mp hs
  have hget : t.db.sessions.get session.id = some session :=
    Table.get_of_mem hs
  have hget' : t'.db.sessions.get session.id = some session :=
    Table.get_of_mem hs'
  have hjob' : t'.db.jobs.get session.jobId = some job := by
    rw [hid, h.jobs, ← hid]
    exact hjob
  unfold itemOf
  simp only [hget, hget', hjob, hjob', h.items, bind, Option.bind_some]
  cases hitem : t.db.items.get job.ingestionItemId with
  | none => rfl
  | some item =>
      have hitemId : item.id = job.ingestionItemId := Table.key_of_get hitem
      simp only [Option.bind_some, hitemId, h.emails.1]

/-- So do the joins to the mailbox, as it is the owner's. -/
theorem resolveMailbox_agree (ht : t.Consistent)
    (h : AgreeOnJob job t t' blobs blobs')
    (hs : session ∈ t.db.sessions.rows)
    (hjob : t.db.jobs.get session.jobId = some job) :
    resolveMailbox t' session.id = resolveMailbox t session.id := by
  unfold resolveMailbox
  rw [itemOf_agree h hs hjob]
  cases hitem : itemOf t.db session.id with
  | none => rfl
  | some item =>
      obtain ⟨hget, email, hemail⟩ :=
        itemOf_some (Table.get_of_mem hs) hjob hitem
      have hid : item.id = job.ingestionItemId := Table.key_of_get hget
      simp only [bind, Option.bind_some, hid, h.emails.2]
      cases hmailbox : (t.emails job.ingestionItemId).mailboxId with
      | none => rfl
      | some mailboxId =>
          obtain ⟨hemailMem, hemailId⟩ := Table.get_some hemail
          obtain ⟨i, hi, hreceived⟩ := ht.emails email hemailMem
          obtain ⟨i', hi', howner⟩ :=
            ht.db.jobs job (Table.get_some hjob).1
          have hkey : email.ingestionItemId = job.ingestionItemId :=
            hemailId
          rw [hkey] at hi hreceived
          obtain ⟨m, hm, hmOwner⟩ := hreceived mailboxId hmailbox
          rw [hi] at hi'
          injection hi' with hi'
          have hown : m.ownerUserId = job.ownerUserId :=
            hmOwner.trans (hi' ▸ howner)
          have hm' : t'.mailboxes.get mailboxId = some m :=
            Table.get_of_shared hm (h.mailboxes m hown).mp
          simp only [Option.bind_some, hm, hm']

/-- A call whose reference is the job's own finds the same attachment. -/
theorem resolveAttachment_agree (h : AgreeOnJob job t t' blobs blobs')
    (hs : session ∈ t.db.sessions.rows)
    (hjob : t.db.jobs.get session.jobId = some job)
    (hown : NamesOwnAttachment t job ref) :
    resolveAttachment env t'.db session.id ref
      = resolveAttachment env t.db session.id ref := by
  unfold resolveAttachment attachmentById attachmentByName
  rw [itemOf_agree h hs hjob]
  cases hid : parseUuid (.str ref) with
  | some id =>
      obtain ⟨att, hatt, rfl⟩ := hown id hid
      have hatt' := hatt
      rw [← h.attachments] at hatt'
      have hget : t.db.attachments.get att.id = some att :=
        Table.get_of_mem (mem_attachmentsOf.mp hatt).1
      have hget' : t'.db.attachments.get att.id = some att :=
        Table.get_of_mem (mem_attachmentsOf.mp hatt').1
      simp only [Option.bind_some, hget, hget']
  | none =>
      cases hitem : itemOf t.db session.id with
      | none => rfl
      | some item =>
          have hitemId := id_of_itemOf (Table.get_of_mem hs) hjob hitem
          simp only [Option.bind_none, hitemId, h.attachments]

/-- And that attachment is one of the job's. -/
theorem resolveAttachment_own
    (hs : session ∈ t.db.sessions.rows)
    (hjob : t.db.jobs.get session.jobId = some job)
    (hown : NamesOwnAttachment t job ref)
    (h : resolveAttachment env t.db session.id ref = some att) :
    att ∈ attachmentsOf t.db job.ingestionItemId := by
  unfold resolveAttachment at h
  cases hbyId : attachmentById t.db ref with
  | some found =>
      rw [hbyId] at h
      injection h with h
      subst h
      obtain ⟨id, hid, hget⟩ := Option.bind_eq_some_iff.mp hbyId
      obtain ⟨own, hmem, hsame⟩ := hown id hid
      have hgetOwn : t.db.attachments.get own.id = some own :=
        Table.get_of_mem (mem_attachmentsOf.mp hmem).1
      rw [hsame, hget] at hgetOwn
      injection hgetOwn with heq
      exact heq ▸ hmem
  | none =>
      rw [hbyId] at h
      unfold attachmentByName at h
      cases hitem : itemOf t.db session.id with
      | none =>
          simp only [hitem] at h
          cases h
      | some item =>
          simp only [hitem] at h
          rw [← id_of_itemOf (Table.get_of_mem hs) hjob hitem]
          exact List.mem_of_find?_eq_some h

/-- What the tables share, as the two runs have it. -/
theorem ready {ids : List Uuid} (h : AgreeOnJob job t t' blobs blobs')
    (hs : session ∈ t.db.sessions.rows) (hid : session.jobId = job.id)
    (hundrawn : ∀ id ∈ ids, Undrawn t.db.artifacts id
      ∧ Undrawn t'.db.artifacts id) (hdistinct : ids.Nodup)
    (hatt : att ∈ attachmentsOf t.db job.ingestionItemId) :
    Ready session.id ids att ⟨t, blobs, []⟩ ⟨t', blobs', []⟩ :=
  { work :=
      { stored :=
          { rows := (h.artifacts session hs hid).1
            blobs := (h.artifacts session hs hid).2
            undrawn := hundrawn
            distinct := hdistinct }
        effects := rfl }
    file := ⟨(h.files att hatt).1, (h.files att hatt).2⟩ }

theorem outcome_of_twins {call : ToolCall}
    (h : Twins (call.program env caller) (fun _ => SameEffects)
      (fun _ => SameEffects) ⟨t, blobs, []⟩ ⟨t', blobs', []⟩) :
    outcome env caller call t' blobs' = outcome env caller call t blobs :=
  Prod.ext h.ends.symm (h.leaves (fun _ _ _ h => h) fun _ _ _ h => h)

end Agreement

-- ========================================================= on attachments

/-- A call that works on the attachment it finds. -/
def onAttachment (env : ToolEnv) (caller : Caller) (ref : String)
    (body : IngestionAttachment → ToolM Json) : ToolM Json := do
  let att ← query fun s =>
    resolveAttachment env s.t.db caller.sessionId ref
  match att with
  | none =>
      pure (.obj [("error", .str ("attachment not found: " ++ ref))])
  | some att => body att

/-- What the work of both tools comes to: it is the same in two states
that share what it works on, it stays with its attachment and session,
and it reads a file that it has not read before. -/
structure WorksOn (caller : Caller) (folder : String) (ids : List Uuid)
    (body : IngestionAttachment → ToolM Json) : Prop where
  drawn : ids.Sublist [caller.firstId, caller.secondId]
  twins : ∀ {att : IngestionAttachment} {s s' : ToolState},
    Ready caller.sessionId ids att s s' →
    Twins (body att) (fun _ => SameEffects) (fun _ => SameEffects) s s'
  keeps : ∀ {att : IngestionAttachment} {P : Effect → Prop}
    {s₀ : ToolState},
    (∀ uri, (s₀.t.files att.id).rawUri = some uri → P (.readBlob uri)) →
    (∀ args row, args.sessionId = caller.sessionId →
      P (.write args row)) → P .commit → Keeps (Added P s₀) (body att)
  reads : ∀ {att : IngestionAttachment} {s : ToolState} {uri : String},
    att.name ≠ "" →
    KeyFree s.t.db.artifacts caller.sessionId (folder ++ att.name) →
    (s.t.files att.id).rawUri = some uri → uri ≠ "" →
    Effect.readBlob uri ∈ (run (body att) s).2.effects

section Attachments

variable {env : ToolEnv} {caller : Caller} {job : ProcessingJob}
  {session : Session} {t : ToolDb} {blobs : Blobs} {ref folder : String}
  {ids : List Uuid} {body : IngestionAttachment → ToolM Json}
  {call : ToolCall}

theorem extraction_worksOn : WorksOn caller "extracted_data/"
    [caller.firstId, caller.secondId] (extractAttachment env caller) where
  drawn := List.Sublist.refl _
  twins := extractAttachment_twins
  keeps := extractAttachment_keeps
  reads hname hfree := extractAttachment_reads (by rwa [if_neg hname])

theorem image_worksOn : WorksOn caller "image_analysis/"
    [caller.firstId] (analyzeAttachment env caller) where
  drawn := List.Sublist.cons_cons _ (List.nil_sublist _)
  twins := analyzeAttachment_twins
  keeps := analyzeAttachment_keeps
  reads hname hfree := analyzeAttachment_reads (by rwa [if_neg hname])

/-- A call that names one of the job's attachments is confined. -/
theorem attachment_confined (hbody : WorksOn caller folder ids body)
    (hcall : call.program env caller = onAttachment env caller ref body)
    (hfresh : caller.Fresh t.db) (hs : session ∈ t.db.sessions.rows)
    (hcaller : caller.sessionId = session.id)
    (hjob : t.db.jobs.get session.jobId = some job)
    (hown : NamesOwnAttachment t job ref) :
    Confined env caller job call t blobs := by
  refine ⟨fun t' blobs' _ hfresh' h => outcome_of_twins ?_, ?_⟩
  · have hundrawn : ∀ id ∈ ids, Undrawn t.db.artifacts id
        ∧ Undrawn t'.db.artifacts id := by
      intro id hid
      rcases List.mem_cons.mp (hbody.drawn.subset hid) with rfl | hid
      · exact ⟨hfresh.first, hfresh'.first⟩
      · rw [List.mem_singleton.mp hid]
        exact ⟨hfresh.second, hfresh'.second⟩
    have hdistinct : ids.Nodup :=
      List.Nodup.sublist hbody.drawn (by simp [hfresh.distinct])
    rw [hcall]
    unfold onAttachment
    rw [hcaller]
    refine twins_bind (twins_read ?_ ?_)
    · exact (resolveAttachment_agree h hs hjob hown).symm
    · cases hfound : resolveAttachment env t.db session.id ref with
      | none => exact twins_pure rfl
      | some att =>
          refine hbody.twins ?_
          rw [hcaller]
          exact ready h hs (Table.key_of_get hjob).symm hundrawn hdistinct
            (resolveAttachment_own hs hjob hown hfound)
  · unfold outcome
    rw [hcall]
    unfold onAttachment
    rw [run_query_bind, hcaller]
    cases hfound : resolveAttachment env t.db session.id ref with
    | none => exact fun e he => by cases he
    | some att =>
        have hatt := resolveAttachment_own hs hjob hown hfound
        refine (hbody.keeps (fun uri huri => ⟨att, hatt, huri⟩) ?_ trivial
          _ .refl).all rfl
        exact fun args row hsid => hcaller ▸ hsid

end Attachments

-- ============================================================== on drafts

section Drafts

variable {env : ToolEnv} {caller : Caller} {job : ProcessingJob}
  {session : Session} {t t' : ToolDb} {blobs blobs' : Blobs}
  {draftId : String} {id : Uuid} {draft : Draft}

/-- `send_draft` of a text that is no UUID. -/
theorem send_unparsed (hid : parseUuid (.str draftId) = none) :
    ∃ answer, ∀ t blobs, outcome env caller (.send draftId) t blobs
      = (.ok answer, []) := by
  refine ⟨.obj [("error", .str ("invalid draft_id: expected UUID, got "
    ++ env.repr draftId))], fun t blobs => ?_⟩
  show ((run (sendDraft env draftId) _).1,
    (run (sendDraft env draftId) _).2.effects) = _
  unfold sendDraft
  rw [hid]
  rfl

theorem run_sendDraft {s : ToolState}
    (hid : parseUuid (.str draftId) = some id) :
    run (sendDraft env draftId) s =
      match s.t.drafts.get id with
      | none => (.error .noResultFound, s)
      | some draft => run (sendRow env draft) s := by
  unfold sendDraft
  rw [hid]
  dsimp only
  rw [run_query_bind]
  cases s.t.drafts.get id with
  | none => rfl
  | some draft => rfl

/-- Of the id of a draft. -/
theorem send_found (hid : parseUuid (.str draftId) = some id)
    (hdraft : t.drafts.get id = some draft) :
    outcome env caller (.send draftId) t blobs
      = ((run (sendRow env draft) ⟨t, blobs, []⟩).1,
        (run (sendRow env draft) ⟨t, blobs, []⟩).2.effects) := by
  show ((run (sendDraft env draftId) _).1,
    (run (sendDraft env draftId) _).2.effects) = _
  rw [run_sendDraft hid]
  simp only [hdraft]

/-- And of any other UUID. -/
theorem send_missing (hid : parseUuid (.str draftId) = some id)
    (hnone : t.drafts.get id = none) :
    outcome env caller (.send draftId) t blobs
      = (.error .noResultFound, []) := by
  show ((run (sendDraft env draftId) _).1,
    (run (sendDraft env draftId) _).2.effects) = _
  rw [run_sendDraft hid]
  simp only [hnone]

/-- A draft of a session is one of its job. -/
theorem jobId_of_own (ht : t.Consistent)
    (hs : session ∈ t.db.sessions.rows) (hd : draft ∈ t.drafts.rows)
    (hown : draft.sessionId = session.id) :
    draft.jobId = session.jobId := by
  obtain ⟨s, hget, hjob⟩ := ht.drafts draft hd
  have hgetOwn : t.db.sessions.get session.id = some session :=
    Table.get_of_mem hs
  rw [hown, hgetOwn] at hget
  injection hget with hget
  rw [← hjob, hget]

/-- A call that names one of the session's drafts is confined, as is one
that names a draft of the job which gets to no provider. -/
theorem draft_confined (ht : t.Consistent)
    (hs : session ∈ t.db.sessions.rows)
    (hcaller : caller.sessionId = session.id)
    (hjob : t.db.jobs.get session.jobId = some job)
    (hown : NamesOwnDraft env t job caller.sessionId draftId) :
    Confined env caller job (.send draftId) t blobs := by
  cases hid : parseUuid (.str draftId) with
  | none =>
      obtain ⟨answer, hanswer⟩ := @send_unparsed env caller draftId hid
      refine ⟨fun t' blobs' _ _ _ => ?_, fun e he => ?_⟩
      · rw [hanswer, hanswer]
      · rw [hanswer] at he
        cases he
  | some id =>
      obtain ⟨draft, hd, hdid, hkind⟩ := hown id hid
      have hdraft : t.drafts.get id = some draft :=
        hdid ▸ Table.get_of_mem hd
      have hdjob : draft.jobId = job.id := by
        rcases hkind with hsame | ⟨hsame, -⟩
        · exact (jobId_of_own ht hs hd (hsame.trans hcaller)).trans
            (Table.key_of_get hjob).symm
        · exact hsame
      refine ⟨fun t' blobs' _ _ h => ?_, fun e he => ?_⟩
      · obtain ⟨s, hget, hsjob⟩ := ht.drafts draft hd
        obtain ⟨hsmem, hsid⟩ := Table.get_some hget
        have hsid : s.id = draft.sessionId := hsid
        have hjobOf : t.db.jobs.get s.jobId = some job := by
          rw [hsjob, hdjob]
          exact Table.get_of_mem (Table.get_some hjob).1
        have hdraft' : t'.drafts.get id = some draft :=
          Table.get_of_shared hdraft (h.drafts draft hdjob).mp
        have htwins := @sendRow_twins env ⟨t, blobs, []⟩ ⟨t', blobs', []⟩
          draft (hsid ▸ (resolveMailbox_agree ht h hsmem hjobOf).symm) rfl
        rw [send_found hid hdraft, send_found hid hdraft']
        exact Prod.ext htwins.ends.symm
          (htwins.leaves (fun _ _ _ h => h) fun _ _ _ h => h)
      · rw [send_found hid hdraft] at he
        rcases hkind with hsame | ⟨-, hstays⟩
        · have hours : OwnDraft t caller.sessionId draft.id :=
            ⟨draft, hd, rfl, hsame⟩
          exact (sendRow_keeps (P := OwnEffect t job caller.sessionId)
            (fun _ _ => hours) hours trivial _ .refl).all rfl e he
        · rw [sendRow_stays (s := ⟨t, blobs, []⟩) hstays] at he
          cases he

end Drafts

-- ============================================================== strangers

/-- Some text is longer than all of these. -/
theorem exists_longer (l : List String) :
    ∃ text : String, 0 < text.length ∧ ∀ x ∈ l, x.length < text.length := by
  induction l with
  | nil => exact ⟨"x", by decide, fun x hx => by cases hx⟩
  | cons y rest ih =>
      obtain ⟨text, hpos, hlonger⟩ := ih
      refine ⟨text ++ y, ?_, fun x hx => ?_⟩
      · rw [String.length_append]
        omega
      · rw [String.length_append]
        rcases List.mem_cons.mp hx with rfl | hx
        · omega
        · have := hlonger x hx
          omega

/-- The rows of a stranger, and an attachment of theirs in the place of
whatever has the id. -/
def ToolDb.lend (t : ToolDb) (rows : TenantRows) (h : rows.Fresh t.db)
    (id : Uuid) (name uri : String) : ToolDb :=
  { t with
    db := { t.db.enroll rows h with
      attachments := (t.db.attachments.erase id).cons
        ⟨id, rows.item.id, name⟩ (Table.notMem_erase _ _) }
    files := Function.update t.files id ⟨none, some uri⟩ }

/-- The rows of a stranger, and a draft of theirs. -/
def ToolDb.post (t : ToolDb) (rows : TenantRows) (h : rows.Fresh t.db)
    (id : Uuid) (hid : t.drafts.get id = none) : ToolDb :=
  { t with
    db := t.db.enroll rows h
    drafts := t.drafts.cons
      { id := id, jobId := rows.job.id, sessionId := rows.session.id
        runId := none, artifactId := id, subject := none, bodyText := none
        toAddrs := none, ccAddrs := none, inReplyToMessageId := none
        status := "drafted" }
      (Table.get_eq_none.mp hid) }

/-- A draft fewer. -/
def ToolDb.withdraw (t : ToolDb) (id : Uuid) : ToolDb :=
  { t with drafts := t.drafts.erase id }

section Strangers

variable {env : ToolEnv} {caller : Caller} {job : ProcessingJob}
  {t : ToolDb} {blobs : Blobs} {rows : TenantRows} {id : Uuid}
  {name uri ref folder : String} {ids : List Uuid}
  {body : IngestionAttachment → ToolM Json}

theorem enrolled_consistent (ht : t.Consistent) (h : rows.Fresh t.db) :
    ({ t with db := t.db.enroll rows h } : ToolDb).Consistent := by
  refine ⟨enroll_consistent ht.db h, fun e he => ?_, fun a ha => ?_,
    fun d hd => ?_⟩
  · obtain ⟨i, hi, hreceived⟩ := ht.emails e he
    exact ⟨i, Table.get_cons_of_some h.item hi, hreceived⟩
  · obtain ⟨i, hi⟩ := ht.attachments a ha
    exact ⟨i, Table.get_cons_of_some h.item hi⟩
  · obtain ⟨s, hs, hjob⟩ := ht.drafts d hd
    exact ⟨s, Table.get_cons_of_some h.session hs, hjob⟩

/-- A stranger changes no row of the job. -/
theorem enrolled_agree (ht : t.Consistent) (h : rows.Fresh t.db)
    (hjob : job ∈ t.db.jobs.rows) :
    AgreeOnJob job t { t with db := t.db.enroll rows h } blobs blobs := by
  obtain ⟨item, hitem, -⟩ := ht.db.jobs job hjob
  have hget : t.db.jobs.get job.id = some job := Table.get_of_mem hjob
  refine
    { jobs := (Table.get_cons_of_some h.job hget).trans hget.symm
      sessions := fun s hs => ⟨List.mem_cons_of_mem _, fun hmem => ?_⟩
      items := (Table.get_cons_of_some h.item hitem).trans hitem.symm
      emails := ⟨rfl, rfl⟩
      attachments := rfl
      files := fun _ _ => ⟨rfl, fun _ _ => rfl⟩
      artifacts := fun _ _ _ => ⟨rfl, fun _ _ _ _ => rfl⟩
      drafts := fun _ _ => Iff.rfl
      mailboxes := fun _ _ => Iff.rfl }
  refine (List.mem_cons.mp hmem).resolve_left fun heq => ?_
  refine h.job (List.mem_map.mpr ⟨job, hjob, ?_⟩)
  show job.id = rows.job.id
  rw [← rows.sessionOf, ← heq, hs]

theorem lend_consistent (ht : t.Consistent) (h : rows.Fresh t.db) :
    (t.lend rows h id name uri).Consistent := by
  have henrolled := enrolled_consistent ht h
  refine ⟨⟨henrolled.db.jobs, henrolled.db.sessions,
    henrolled.db.artifacts, henrolled.db.unique⟩, henrolled.emails,
    fun a ha => ?_, henrolled.drafts⟩
  rcases List.mem_cons.mp ha with rfl | ha
  · exact ⟨rows.item, Table.get_cons_self h.item⟩
  · exact henrolled.attachments a (List.mem_filter.mp ha).1

/-- An id that is none of the job's attachments can be lent. -/
theorem lend_agree (ht : t.Consistent) (h : rows.Fresh t.db)
    (hjob : job ∈ t.db.jobs.rows)
    (hother : ∀ att ∈ attachmentsOf t.db job.ingestionItemId,
      att.id ≠ id) :
    AgreeOnJob job t (t.lend rows h id name uri) blobs blobs := by
  have henrolled := @enrolled_agree job t blobs rows ht h hjob
  obtain ⟨item, hitem, -⟩ := ht.db.jobs job hjob
  have hne : rows.item.id ≠ job.ingestionItemId := by
    intro heq
    obtain ⟨hmem, hid⟩ := Table.get_some hitem
    exact h.item (List.mem_map.mpr ⟨item, hmem, hid.trans heq.symm⟩)
  refine ⟨henrolled.jobs, henrolled.sessions, henrolled.items,
    henrolled.emails, ?_, fun att hatt => ⟨?_, fun _ _ => rfl⟩,
    henrolled.artifacts, henrolled.drafts, henrolled.mailboxes⟩
  · unfold attachmentsOf ToolDb.lend Table.cons Table.erase
    dsimp only
    rw [List.filter_cons_of_neg (by simpa using hne), List.filter_filter]
    refine List.filter_congr fun att hatt => ?_
    by_cases hitem : att.ingestionItemId = job.ingestionItemId
    · have hid := hother att (mem_attachmentsOf.mpr ⟨hatt, hitem⟩)
      have hkey : HasKey.key att ≠ id := hid
      simp [hitem, hkey]
    · simp [hitem]
  · exact Function.update_of_ne (hother att hatt) _ _

/-- The blob an effect reads. -/
def Effect.uriRead : Effect → Option String
  | .readBlob uri => some uri
  | _ => none

theorem ne_empty {text : String} (h : 0 < text.length) : text ≠ "" := by
  rintro rfl
  exact absurd h (by decide)

/-- A call with the id that is lent reads the stranger's file. -/
theorem lend_reads (hbody : WorksOn caller folder ids body)
    (h : rows.Fresh t.db) (hid : parseUuid (.str ref) = some id)
    (hname : 0 < name.length)
    (hlonger : ∀ k ∈ t.db.artifacts.rows.map (·.key),
      k.length < name.length)
    (huri : 0 < uri.length) :
    Effect.readBlob uri ∈ (run (onAttachment env caller ref body)
      ⟨t.lend rows h id name uri, blobs, []⟩).2.effects := by
  have hfound : resolveAttachment env (t.lend rows h id name uri).db
      caller.sessionId ref = some ⟨id, rows.item.id, name⟩ := by
    have hget : (t.lend rows h id name uri).db.attachments.get id
        = some ⟨id, rows.item.id, name⟩ :=
      Table.get_cons_self (Table.notMem_erase _ _)
    unfold resolveAttachment attachmentById
    rw [hid, Option.bind_some, hget]
  unfold onAttachment
  rw [run_query_bind, hfound]
  refine hbody.reads (ne_empty hname) (fun r hr _ hkey => ?_) ?_
    (ne_empty huri)
  · have hshort := hlonger r.key (List.mem_map_of_mem hr)
    have hkey : r.key = folder ++ name := hkey
    rw [hkey, String.length_append] at hshort
    omega
  · show (Function.update t.files id _ id).rawUri = some uri
    rw [Function.update_self]

/-- A confined call names one of the job's attachments. -/
theorem namesOwnAttachment_of_confined {call : ToolCall}
    (hbody : WorksOn caller folder ids body)
    (hcall : call.program env caller = onAttachment env caller ref body)
    (ht : t.Consistent) (hfresh : caller.Fresh t.db)
    (hjob : job ∈ t.db.jobs.rows)
    (hconfined : Confined env caller job call t blobs) :
    NamesOwnAttachment t job ref := by
  intro id hid
  by_contra hother
  have hother : ∀ att ∈ attachmentsOf t.db job.ingestionItemId,
      att.id ≠ id := fun att hatt heq => hother ⟨att, hatt, heq⟩
  obtain ⟨n, hn⟩ := exists_fresh t.db
  have h := hn 0 "" none "" 1
  obtain ⟨name, hname, hlonger⟩ :=
    exists_longer (t.db.artifacts.rows.map (·.key))
  -- a file that the call has not read here
  obtain ⟨uri, huri, hunread⟩ :=
    exists_longer ((outcome env caller call t blobs).2.filterMap
      Effect.uriRead)
  have hsame := hconfined.1 (t.lend _ h id name uri) blobs
    (lend_consistent ht h) ⟨hfresh.first, hfresh.second, hfresh.distinct⟩
    (lend_agree ht h hjob hother)
  have hread : Effect.readBlob uri
      ∈ (outcome env caller call (t.lend _ h id name uri) blobs).2 := by
    unfold outcome
    rw [hcall]
    exact lend_reads hbody h hid hname hlonger huri
  rw [hsame] at hread
  exact absurd (hunread uri (List.mem_filterMap.mpr ⟨_, hread, rfl⟩))
    (lt_irrefl _)

theorem post_consistent (ht : t.Consistent) (h : rows.Fresh t.db)
    (hid : t.drafts.get id = none) : (t.post rows h id hid).Consistent := by
  have henrolled := enrolled_consistent ht h
  refine ⟨henrolled.db, henrolled.emails, henrolled.attachments,
    fun d hd => ?_⟩
  rcases List.mem_cons.mp hd with rfl | hd
  · exact ⟨rows.session, Table.get_cons_self h.session, rows.sessionOf⟩
  · exact henrolled.drafts d hd

theorem post_agree (ht : t.Consistent) (h : rows.Fresh t.db)
    (hid : t.drafts.get id = none) (hjob : job ∈ t.db.jobs.rows) :
    AgreeOnJob job t (t.post rows h id hid) blobs blobs := by
  have henrolled := @enrolled_agree job t blobs rows ht h hjob
  refine { henrolled with drafts := fun d hd => ?_ }
  refine ⟨List.mem_cons_of_mem _, fun hmem => ?_⟩
  refine (List.mem_cons.mp hmem).resolve_left fun heq => ?_
  refine h.job (List.mem_map.mpr ⟨job, hjob, ?_⟩)
  show job.id = rows.job.id
  rw [← hd, heq]

/-- The stranger's draft is found, and has no mailbox. -/
theorem post_outcome {draftId : String} (h : rows.Fresh t.db)
    (hid : t.drafts.get id = none)
    (hparsed : parseUuid (.str draftId) = some id) :
    (outcome env caller (.send draftId) (t.post rows h id hid) blobs).1
      ≠ .error .noResultFound := by
  have hfound : (t.post rows h id hid).drafts.get id = some _ :=
    Table.get_cons_self (Table.get_eq_none.mp hid)
  rw [send_found hparsed hfound]
  exact sendRow_found

theorem withdraw_consistent (ht : t.Consistent) :
    (t.withdraw id).Consistent :=
  ⟨ht.db, ht.emails, ht.attachments,
    fun d hd => ht.drafts d (List.mem_filter.mp hd).1⟩

/-- A draft of another job can be missing. -/
theorem withdraw_agree (hother : ∀ d ∈ t.drafts.rows, d.id = id →
      d.jobId ≠ job.id) :
    AgreeOnJob job t (t.withdraw id) blobs blobs where
  jobs := rfl
  sessions _ _ := Iff.rfl
  items := rfl
  emails := ⟨rfl, rfl⟩
  attachments := rfl
  files _ _ := ⟨rfl, fun _ _ => rfl⟩
  artifacts _ _ _ := ⟨rfl, fun _ _ _ _ => rfl⟩
  drafts d hd := by
    refine ⟨fun hmem => List.mem_filter.mpr ⟨hmem, ?_⟩,
      fun hmem => (List.mem_filter.mp hmem).1⟩
    exact decide_eq_true fun heq => hother d hmem heq hd
  mailboxes _ _ := Iff.rfl

/-- A confined call names one of the session's drafts, or one of the job
which gets to no provider. -/
theorem namesOwnDraft_of_confined {draftId : String} (ht : t.Consistent)
    (hfresh : caller.Fresh t.db) (hjob : job ∈ t.db.jobs.rows)
    (hconfined : Confined env caller job (.send draftId) t blobs) :
    NamesOwnDraft env t job caller.sessionId draftId := by
  intro id hid
  cases hdraft : t.drafts.get id with
  | none =>
      -- elsewhere a stranger has a draft of that id
      obtain ⟨n, hn⟩ := exists_fresh t.db
      have h := hn 0 "" none "" 1
      have hsame := hconfined.1 (t.post _ h id hdraft) blobs
        (post_consistent ht h hdraft)
        ⟨hfresh.first, hfresh.second, hfresh.distinct⟩
        (post_agree ht h hdraft hjob)
      have hfound := @post_outcome env caller t blobs _ id draftId h hdraft
        hid
      rw [hsame, send_missing hid hdraft] at hfound
      exact absurd rfl hfound
  | some draft =>
      obtain ⟨hmem, hkey⟩ := Table.get_some hdraft
      have hkey : draft.id = id := hkey
      by_cases hown : draft.jobId = job.id
      · refine ⟨draft, hmem, hkey, ?_⟩
        by_contra hneither
        push Not at hneither
        -- it is handed over, and is no draft of the session
        obtain ⟨mailbox, handed, hcalled⟩ :=
          @sendRow_calls env ⟨t, blobs, []⟩ draft (hneither.2 hown)
        have heffect := hconfined.2 (.callProvider draft.id mailbox handed)
        rw [send_found hid hdraft] at heffect
        obtain ⟨d, hd, hsame, hsession⟩ := heffect hcalled
        have hget : t.drafts.get d.id = some d := Table.get_of_mem hd
        rw [hsame, hkey, hdraft] at hget
        injection hget with hget
        exact hneither.1 (hget ▸ hsession)
      · -- elsewhere it is missing
        have hother : ∀ d ∈ t.drafts.rows, d.id = id →
            d.jobId ≠ job.id := by
          intro d hd hdid
          have hget : t.drafts.get d.id = some d := Table.get_of_mem hd
          rw [hdid, hdraft] at hget
          injection hget with hget
          exact hget ▸ hown
        have hsame := hconfined.1 (t.withdraw id) blobs
          (withdraw_consistent ht)
          ⟨hfresh.first, hfresh.second, hfresh.distinct⟩
          (withdraw_agree hother)
        have hmissing : (t.withdraw id).drafts.get id = none :=
          (Table.get_erase _ _ _).trans (if_pos rfl)
        rw [send_missing hid hmissing, send_found hid hdraft] at hsame
        exact absurd (Prod.mk.inj hsame).1.symm sendRow_found

end Strangers

-- ================================================================== calls

/-- A call is confined to its session exactly when what it names is the
session's own. -/
theorem tool_confined_iff {env : ToolEnv} {caller : Caller}
    {session : Session} {job : ProcessingJob} {call : ToolCall}
    {t : ToolDb} {blobs : Blobs} (ht : t.Consistent)
    (hfresh : caller.Fresh t.db) (hs : session ∈ t.db.sessions.rows)
    (hcaller : caller.sessionId = session.id)
    (hjob : t.db.jobs.get session.jobId = some job) :
    Confined env caller job call t blobs
      ↔ NamesOwn env t job caller.sessionId call := by
  have hmem := (Table.get_some hjob).1
  cases call with
  | extraction ref =>
      refine ⟨fun h => ?_, fun h => ?_⟩
      · exact namesOwnAttachment_of_confined extraction_worksOn rfl ht
          hfresh hmem h
      · exact attachment_confined extraction_worksOn rfl hfresh hs hcaller
          hjob h
  | image ref =>
      refine ⟨fun h => ?_, fun h => ?_⟩
      · exact namesOwnAttachment_of_confined image_worksOn rfl ht hfresh
          hmem h
      · exact attachment_confined image_worksOn rfl hfresh hs hcaller
          hjob h
  | send draftId =>
      refine ⟨fun h => ?_, fun h => ?_⟩
      · exact namesOwnDraft_of_confined ht hfresh hmem h
      · exact draft_confined ht hs hcaller hjob h

-- =============================================================== scenarios

/-- A runtime on which every file has the text `hello` and the provider
`fake` takes every draft. -/
def ToolEnv.sample : ToolEnv :=
  { rt := Runtime.sample
    svc := ArtifactService.default
    lower := fun text => String.ofList (text.toList.map Char.toLower)
    str := fun content =>
      match content with
      | .value v => strOf Runtime.sample v
      | .bytes _ => ""
    repr := fun text => "'" ++ text ++ "'"
    extract := fun _ _ _ => .ok ⟨true, "hello", [], none⟩
    vision := fun _ _ _ => .ok (.obj [])
    decrypt := fun _ => .ok .null
    adapters := fun provider =>
      if provider = "fake" then some fun _ _ _ => .ok ⟨some "m", true, none⟩
      else none }

/-- A call in the session of Alice. -/
def aliceCaller : Caller := ⟨10, none, 80, 81⟩

/-- The files of the attachments 30 and 40. -/
def sampleFiles (id : Uuid) : FileColumns :=
  ⟨some "application/pdf", if id = 30 then some "own" else some "bobs"⟩

def sampleBlobs : Blobs := fun _ => some [104, 105]

/-- The rows of Alice, with an attachment. -/
def alone : ToolDb :=
  { db := { Db.empty.join alice alice_fresh with
      attachments := ⟨[⟨30, 10, "own.pdf"⟩], by decide⟩ }
    emails := fun _ => ⟨none, none⟩
    files := sampleFiles
    mailboxes := .empty
    drafts := .empty }

/-- The rows of Alice and of Bob, who has an attachment, a mailbox and a
draft. -/
def withBob : ToolDb :=
  { db := { (Db.empty.join alice alice_fresh).join bob bob_fresh with
      attachments :=
        ⟨[⟨30, 10, "own.pdf"⟩, ⟨40, 20, "bob.pdf"⟩], by decide⟩ }
    emails := fun id => ⟨if id = 20 then some 70 else none, none⟩
    files := sampleFiles
    mailboxes := ⟨[⟨70, "fake", "bob@example", none, "bob"⟩], by decide⟩
    drafts := ⟨[{ id := 60, jobId := 20, sessionId := 20, runId := none
                  artifactId := 20, subject := none, bodyText := none
                  toAddrs := none, ccAddrs := none
                  inReplyToMessageId := none, status := "drafted" }],
      by decide⟩ }

theorem withBob_consistent : withBob.Consistent := by
  have hdb := join_consistent
    (join_consistent empty_consistent alice_fresh) bob_fresh
  refine ⟨⟨hdb.jobs, hdb.sessions, hdb.artifacts, hdb.unique⟩,
    fun e he => ?_, fun a ha => ?_, fun d hd => ?_⟩
  · rcases List.mem_cons.mp he with rfl | he
    · refine ⟨bob.item, by decide, fun id hid => ?_⟩
      injection hid with hid
      subst hid
      exact ⟨_, rfl, rfl⟩
    · rw [List.mem_singleton.mp he]
      exact ⟨alice.item, by decide, fun id hid => by cases hid⟩
  · rcases List.mem_cons.mp ha with rfl | ha
    · exact ⟨alice.item, by decide⟩
    · rw [List.mem_singleton.mp ha]
      exact ⟨bob.item, by decide⟩
  · rw [List.mem_singleton.mp hd]
    exact ⟨bob.session, by decide, rfl⟩

theorem alone_consistent : alone.Consistent := by
  have hdb := join_consistent empty_consistent alice_fresh
  refine ⟨⟨hdb.jobs, hdb.sessions, hdb.artifacts, hdb.unique⟩,
    fun e he => ?_, fun a ha => ?_, fun d hd => by cases hd⟩
  · rw [List.mem_singleton.mp he]
    exact ⟨alice.item, by decide, fun id hid => by cases hid⟩
  · rw [List.mem_singleton.mp ha]
    exact ⟨alice.item, by decide⟩

/-- Without Bob the rows of Alice's job are the same. -/
theorem alone_agrees :
    AgreeOnJob alice.job withBob alone sampleBlobs sampleBlobs where
  jobs := by decide
  sessions s hs := by
    refine ⟨fun hmem => (List.mem_cons.mp hmem).resolve_left fun heq => ?_,
      List.mem_cons_of_mem _⟩
    rw [heq] at hs
    exact absurd hs (by decide)
  items := by decide
  emails := ⟨by decide, rfl⟩
  attachments := by decide
  files _ _ := ⟨rfl, fun _ _ => rfl⟩
  artifacts s hmem hs := by
    refine ⟨?_, fun _ _ _ _ => rfl⟩
    rcases List.mem_cons.mp hmem with rfl | hmem
    · exact absurd hs (by decide)
    · rw [List.mem_singleton.mp hmem]
      decide
  drafts d hd := by
    refine ⟨fun hmem => ?_, fun hmem => by cases hmem⟩
    rw [List.mem_singleton.mp hmem] at hd
    exact absurd hd (by decide)
  mailboxes m hm := by
    refine ⟨fun hmem => ?_, fun hmem => by cases hmem⟩
    rw [List.mem_singleton.mp hmem] at hm
    exact absurd hm (by decide)

theorem aliceCaller_fresh : aliceCaller.Fresh withBob.db :=
  ⟨by unfold Undrawn; decide, by unfold Undrawn; decide, by decide⟩

/-- A call with the id of an attachment of one's own email is confined. -/
theorem own_attachment_confined :
    Confined ToolEnv.sample aliceCaller alice.job (.extraction "30")
      withBob sampleBlobs := by
  refine (@tool_confined_iff ToolEnv.sample aliceCaller alice.session
    alice.job (.extraction "30") withBob sampleBlobs withBob_consistent
    aliceCaller_fresh (by decide) rfl (by decide)).mpr fun id hid => ?_
  have hparsed : parseUuid (.str "30") = some 30 := by decide +kernel
  rw [hparsed] at hid
  exact ⟨⟨30, 10, "own.pdf"⟩, by decide, Option.some.inj hid⟩

/-- From the session of Alice, Bob's attachment is read and his draft is
sent; without Bob the same calls find neither. -/
theorem other_tenant_reached :
    withBob.Consistent ∧ alone.Consistent
      ∧ AgreeOnJob alice.job withBob alone sampleBlobs sampleBlobs
      ∧ aliceCaller.Fresh withBob.db ∧ aliceCaller.Fresh alone.db
      ∧ Effect.readBlob "bobs" ∈ (outcome ToolEnv.sample aliceCaller
        (.extraction "40") withBob sampleBlobs).2
      ∧ (outcome ToolEnv.sample aliceCaller (.extraction "40") alone
        sampleBlobs).2 = []
      ∧ Effect.markSent 60 ∈ (outcome ToolEnv.sample aliceCaller
        (.send "60") withBob sampleBlobs).2
      ∧ (outcome ToolEnv.sample aliceCaller (.send "60") alone
        sampleBlobs).1 = .error .noResultFound
      ∧ ¬ Confined ToolEnv.sample aliceCaller alice.job
        (.extraction "40") withBob sampleBlobs
      ∧ ¬ Confined ToolEnv.sample aliceCaller alice.job (.send "60")
        withBob sampleBlobs := by
  have hfresh : aliceCaller.Fresh alone.db :=
    ⟨by unfold Undrawn; decide, by unfold Undrawn; decide, by decide⟩
  have hread : Effect.readBlob "bobs" ∈ (outcome ToolEnv.sample aliceCaller
      (.extraction "40") withBob sampleBlobs).2 := by decide +kernel
  have hunread : (outcome ToolEnv.sample aliceCaller (.extraction "40")
      alone sampleBlobs).2 = [] := by decide +kernel
  have hsent : Effect.markSent 60 ∈ (outcome ToolEnv.sample aliceCaller
      (.send "60") withBob sampleBlobs).2 := by decide +kernel
  refine ⟨withBob_consistent, alone_consistent, alone_agrees,
    aliceCaller_fresh, hfresh, hread, hunread, hsent, ?_, fun h => ?_,
    fun h => ?_⟩
  · decide +kernel
  · have hsame := h.1 alone sampleBlobs alone_consistent hfresh
      alone_agrees
    rw [← hsame, hunread] at hread
    cases hread
  · obtain ⟨d, hd, -, hsession⟩ := h.2 _ hsent
    rw [List.mem_singleton.mp hd] at hsession
    exact absurd hsession (by decide)

end LegalBot.Tools
