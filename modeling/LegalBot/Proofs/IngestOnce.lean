/-
Exactly-once ingestion: whatever the interleaving of deliveries, crashes
and other transactions, a source message has at most one item, and an
item has all its rows and one job past `intake`.

# The argument

- The keys of what open transactions have inserted are reserved
  (`IngestInv.reserved`): an insert checks the committed rows and waits
  for the other transactions.
- So a commit succeeds (`store_ok`), and it is an atomic `upsert`
  (`commit_upserts`).
- Rows are linked to stored items (`IntakeLinked`), so a new item owns
  exactly the rows that come with it (`Appended.whole_new`), and its job
  is never found already there.
- The other transactions keep the items, and move jobs along allowed
  pairs, none of which leads to `intake` (`IntakeKept.whole`).
-/
import LegalBot.Ingestion.Commits
import LegalBot.Lib.Reservations

namespace LegalBot

open Relational (HasKey Table)
open Reservations (Free Reserved)

-- ============================================================== statements

/-- The item has everything its delivery mapped, once. -/
structure Whole (db : Db) (c : IngestCall) (r : IngestionItem) :
    Prop where
  item : r = c.item r.id
  details : (db.emailMetadata.rows.filter
    fun m => m.ingestionItemId = r.id) = c.details r.id
  attachments : (db.attachments.rows.filter
      fun a => a.ingestionItemId = r.id).map (·.name)
    = c.mapped.attachments
  job : ∃ job ∈ db.jobs.rows, job.ingestionItemId = r.id
    ∧ job.state ≠ .intake
    ∧ ∀ job' ∈ db.jobs.rows, job'.ingestionItemId = r.id → job' = job

/-- One item a message, and every item is whole. -/
structure ExactlyOnce (delivered : List IngestCall) (db : Db) : Prop where
  unique : ∀ r ∈ db.items.rows, ∀ r' ∈ db.items.rows,
    r.source = r'.source → r.externalId = r'.externalId → r = r'
  whole : ∀ r ∈ db.items.rows, ∃ c ∈ delivered, Whole db c r

/-- A delivery that finds the item returns it without a job; its only
effect is on its own program point. -/
structure DuplicateReturns {n : Nat} (cfg : Settings)
    (s : IngestState n) : Prop where
  insertItem : ∀ t c id, s.tasks t = .insertItem c →
    (∃ r ∈ s.db.items.rows, c.mapped.Matches r) →
    IngestState.step cfg (.statement t [id]) s
      = some (s.moveTo t (.selectItem c))
  selectItem : ∀ t c ids, s.tasks t = .selectItem c →
    ∃ row ∈ s.db.items.rows, c.mapped.Matches row
      ∧ IngestState.step cfg (.statement t ids) s
        = some (s.moveTo t (.commit c row none .none))
  commit : ∀ t c row w, s.tasks t = .commit c row none w →
    row ∈ s.db.items.rows ∧ c.mapped.Matches row
      ∧ IngestState.step cfg (.commit t) s
        = some (s.moveTo t (.returned row none))

-- =============================================================== new items

section NewItems

variable {c c₀ : IngestCall} {itemId jobId : Uuid} {ids : List Uuid}
  {w : IngestWrites} {delivered : List IngestCall} {db db' : Db}
  {r : IngestionItem}

theorem filter_old {α : Type} {p : α → Bool} {xs ys : List α}
    (hys : ∀ y ∈ ys, p y = false) :
    (xs ++ ys).filter p = xs.filter p := by
  have hnone : ys.filter p = [] :=
    List.filter_eq_nil_iff.mpr fun y hy => by simp [hys y hy]
  rw [List.filter_append, hnone, List.append_nil]

theorem filter_new {α : Type} {p : α → Bool} {xs ys : List α}
    (hxs : ∀ x ∈ xs, p x = false) (hys : ∀ y ∈ ys, p y = true) :
    (xs ++ ys).filter p = ys := by
  have hnone : xs.filter p = [] :=
    List.filter_eq_nil_iff.mpr fun x hx => by simp [hxs x hx]
  rw [List.filter_append, hnone, List.nil_append]
  exact List.filter_eq_self.mpr hys

/-- What was held and what was claimed is held. -/
theorem Appended.held (h : Appended w db db') :
    db'.ingested.keys = db.ingested.keys ∪ w.keys := by
  ext k
  cases k with
  | item id =>
      show (∃ r ∈ db'.items.rows, _) ↔ (∃ r ∈ db.items.rows, _) ∨ _
      rw [h.items]
      simp only [List.mem_append, or_and_right, exists_or]
      rfl
  | message source externalId =>
      show (∃ r ∈ db'.items.rows, _) ↔ (∃ r ∈ db.items.rows, _) ∨ _
      rw [h.items]
      simp only [List.mem_append, or_and_right, exists_or]
      rfl
  | attachment id =>
      show (∃ r ∈ db'.attachments.rows, _)
        ↔ (∃ r ∈ db.attachments.rows, _) ∨ _
      rw [h.attachments]
      simp only [List.mem_append, or_and_right, exists_or]
      rfl
  | job id =>
      show (∃ r ∈ db'.jobs.rows, _) ↔ (∃ r ∈ db.jobs.rows, _) ∨ _
      rw [h.jobs]
      simp only [List.mem_append, or_and_right, exists_or]
      rfl

theorem Appended.linked
    (h : Appended (c.complete itemId jobId ids) db db')
    (hlinked : IntakeLinked db) : IntakeLinked db' := by
  have hold : ∀ {k}, k ∈ db.ingested.keys → k ∈ db'.ingested.keys :=
    fun hk => h.held ▸ Or.inl hk
  have hnew : IngestKey.item itemId ∈ db'.ingested.keys :=
    h.held ▸ Or.inr ⟨_, List.mem_singleton_self _, rfl⟩
  refine { details := ?_, attachments := ?_, jobs := ?_ }
  · intro m hm
    rw [h.emailMetadata] at hm
    rcases List.mem_append.mp hm with hm | hm
    · exact hold (hlinked.details m hm)
    · rw [mem_details hm]
      exact hnew
  · intro a ha
    rw [h.attachments] at ha
    rcases List.mem_append.mp ha with ha | ha
    · exact hold (hlinked.attachments a ha)
    · rw [(mem_attachmentRows ha).2]
      exact hnew
  · intro j hj
    rw [h.jobs] at hj
    rcases List.mem_append.mp hj with hj | hj
    · exact hold (hlinked.jobs j hj)
    · rw [List.mem_singleton.mp hj]
      exact hnew

/-- An item that was there keeps its rows and gets no other. -/
theorem Appended.whole_old
    (h : Appended (c.complete itemId jobId ids) db db')
    (hne : itemId ≠ r.id) (hw : Whole db c₀ r) : Whole db' c₀ r := by
  obtain ⟨job, hjob, hof, hstate, honly⟩ := hw.job
  refine { item := hw.item, details := ?_, attachments := ?_, job := ?_ }
  · rw [h.emailMetadata, filter_old, hw.details]
    exact fun m hm => decide_eq_false (mem_details hm ▸ hne)
  · rw [h.attachments, filter_old, hw.attachments]
    exact fun a ha => decide_eq_false ((mem_attachmentRows ha).2 ▸ hne)
  · rw [h.jobs]
    refine ⟨job, List.mem_append_left _ hjob, hof, hstate, ?_⟩
    intro job' hjob' hof'
    rcases List.mem_append.mp hjob' with hjob' | hjob'
    · exact honly job' hjob' hof'
    · rw [List.mem_singleton.mp hjob'] at hof'
      exact absurd hof' hne

/-- A new item has the rows that came with it. -/
theorem Appended.whole_new
    (h : Appended (c.complete itemId jobId ids) db db')
    (hlinked : IntakeLinked db)
    (hlen : ids.length = c.mapped.attachments.length)
    (hitem : IngestKey.item itemId ∉ db.ingested.keys) :
    Whole db' c (c.item itemId) := by
  have hother : ∀ {id}, IngestKey.item id ∈ db.ingested.keys →
      id ≠ (c.item itemId).id := by
    rintro id hk rfl
    exact hitem hk
  refine { item := rfl, details := ?_, attachments := ?_, job := ?_ }
  · rw [h.emailMetadata, filter_new]
    · rfl
    · exact fun m hm => decide_eq_false (hother (hlinked.details m hm))
    · exact fun m hm => decide_eq_true (mem_details hm)
  · rw [h.attachments, filter_new]
    · exact attachmentRows_names hlen
    · exact fun a ha =>
        decide_eq_false (hother (hlinked.attachments a ha))
    · exact fun a ha => decide_eq_true (mem_attachmentRows ha).2
  · rw [h.jobs]
    refine ⟨c.job jobId itemId,
      List.mem_append_right _ (List.mem_singleton_self _), rfl,
      (fun h => by cases h), ?_⟩
    intro job' hjob' hof'
    rcases List.mem_append.mp hjob' with hjob' | hjob'
    · exact absurd hof' (hother (hlinked.jobs job' hjob'))
    · exact List.mem_singleton.mp hjob'

theorem Appended.once
    (h : Appended (c.complete itemId jobId ids) db db')
    (hc : c ∈ delivered) (hlinked : IntakeLinked db)
    (hlen : ids.length = c.mapped.attachments.length)
    (hnew : ∀ k ∈ (c.complete itemId jobId ids).keys,
      k ∉ db.ingested.keys)
    (ho : ExactlyOnce delivered db) : ExactlyOnce delivered db' := by
  have hitem : IngestKey.item itemId ∉ db.ingested.keys :=
    hnew (.item itemId) ⟨_, List.mem_singleton_self _, rfl⟩
  have hmessage : IngestKey.message c.mapped.source c.mapped.externalId
      ∉ db.ingested.keys :=
    hnew (.message _ _) ⟨_, List.mem_singleton_self _, rfl, rfl⟩
  have hcases : ∀ r ∈ db'.items.rows,
      r ∈ db.items.rows ∨ r = c.item itemId := by
    intro r hr
    rw [h.items] at hr
    exact (List.mem_append.mp hr).imp_right List.mem_singleton.mp
  refine { unique := ?_, whole := ?_ }
  · intro r hr r' hr' hsource hexternal
    rcases hcases r hr with hr | rfl
    · rcases hcases r' hr' with hr' | rfl
      · exact ho.unique r hr r' hr' hsource hexternal
      · exact absurd ⟨r, hr, hsource, hexternal⟩ hmessage
    · rcases hcases r' hr' with hr' | rfl
      · exact absurd ⟨r', hr', hsource.symm, hexternal.symm⟩ hmessage
      · rfl
  · intro r hr
    rcases hcases r hr with hr | rfl
    · obtain ⟨c₀, hc₀, hw⟩ := ho.whole r hr
      have hne : itemId ≠ r.id := fun e => hitem ⟨r, hr, e.symm⟩
      exact ⟨c₀, hc₀, h.whole_old hne hw⟩
    · exact ⟨c, hc, h.whole_new hlinked hlen hitem⟩

end NewItems

-- ====================================================== other transactions

section Others

variable {cfg : Settings} {now : Time} {tx : Tx} {c : IngestCall}
  {delivered : List IngestCall} {db db' : Db} {r : IngestionItem}

/-- A job of the database afterwards was there before, on the same item,
and has not gone back to `intake`. -/
theorem commit_job (hkept : IntakeKept db db')
    (h : tx.commit cfg now db = .ok db') {job' : ProcessingJob}
    (hjob' : job' ∈ db'.jobs.rows) :
    ∃ job ∈ db.jobs.rows, job'.id = job.id
      ∧ job'.ingestionItemId = job.ingestionItemId := by
  rcases (commit_spec h).jobs.origin (Table.mem_rows.mp hjob') with
    ⟨job, hjob, hmove⟩ | ⟨hnone, -⟩
  · exact ⟨job, (Table.get_some hjob).1, hmove.id, hmove.ingestionItemId⟩
  · have hget := hkept.jobs hnone
    rw [Table.mem_rows.mp hjob'] at hget
    cases hget

/-- No allowed pair leads to `intake`. -/
theorem not_to_intake {f : JobState} :
    (f, JobState.intake) ∉ allowedTransitions := by
  cases f <;> decide

theorem IntakeKept.whole (hkept : IntakeKept db db')
    (h : tx.commit cfg now db = .ok db') (hw : Whole db c r) :
    Whole db' c r := by
  obtain ⟨job, hjob, hof, hstate, honly⟩ := hw.job
  obtain ⟨job₁, hjob₁, hmove⟩ :=
    (commit_spec h).jobs.persists (Table.mem_rows.mp hjob)
  refine { item := hw.item, details := ?_, attachments := ?_, job := ?_ }
  · rw [hkept.emailMetadata]
    exact hw.details
  · rw [hkept.attachments]
    exact hw.attachments
  · refine ⟨job₁, (Table.get_some hjob₁).1,
      hmove.ingestionItemId.trans hof, ?_, ?_⟩
    · rcases hmove.state with hsame | ⟨hallowed, -⟩
      · rw [hsame]
        exact hstate
      · intro hintake
        rw [hintake] at hallowed
        exact not_to_intake hallowed
    · intro job' hjob' hof'
      obtain ⟨job₀, hjob₀, hid, hitem⟩ := commit_job hkept h hjob'
      have hsame := honly job₀ hjob₀ (hitem.symm.trans hof')
      have hget := Table.mem_rows.mp hjob'
      have hkey : HasKey.key job' = HasKey.key job :=
        hid.trans (congrArg _ hsame)
      rw [hkey, hjob₁] at hget
      injection hget with hget
      exact hget.symm

theorem IntakeKept.once (hkept : IntakeKept db db')
    (h : tx.commit cfg now db = .ok db')
    (ho : ExactlyOnce delivered db) : ExactlyOnce delivered db' := by
  refine { unique := ?_, whole := ?_ }
  · rw [hkept.items]
    exact ho.unique
  · rw [hkept.items]
    intro r hr
    obtain ⟨c, hc, hw⟩ := ho.whole r hr
    exact ⟨c, hc, hkept.whole h hw⟩

/-- The items keep their keys. -/
theorem IntakeKept.item_keys (hkept : IntakeKept db db') {id : Uuid} :
    IngestKey.item id ∈ db'.ingested.keys
      ↔ IngestKey.item id ∈ db.ingested.keys := by
  show (∃ r ∈ db'.items.rows, _) ↔ (∃ r ∈ db.items.rows, _)
  rw [hkept.items]

theorem IntakeKept.held (hkept : IntakeKept db db')
    (h : tx.commit cfg now db = .ok db') :
    db'.ingested.keys ⊆ db.ingested.keys := by
  intro k hk
  cases k with
  | item id => exact hkept.item_keys.mp hk
  | message source externalId =>
      obtain ⟨r, hr, hkey⟩ := hk
      have hrow : r ∈ db'.items.rows := hr
      rw [hkept.items] at hrow
      exact ⟨r, hrow, hkey⟩
  | attachment id =>
      obtain ⟨a, ha, hkey⟩ := hk
      have hrow : a ∈ db'.attachments.rows := ha
      rw [hkept.attachments] at hrow
      exact ⟨a, hrow, hkey⟩
  | job id =>
      obtain ⟨job', hjob', rfl⟩ := hk
      obtain ⟨job, hjob, hid, -⟩ := commit_job hkept h hjob'
      exact ⟨job, hjob, hid.symm⟩

theorem IntakeKept.linked (hkept : IntakeKept db db')
    (h : tx.commit cfg now db = .ok db') (hlinked : IntakeLinked db) :
    IntakeLinked db' := by
  refine { details := ?_, attachments := ?_, jobs := ?_ }
  · rw [hkept.emailMetadata]
    exact fun m hm => hkept.item_keys.mpr (hlinked.details m hm)
  · rw [hkept.attachments]
    exact fun a ha => hkept.item_keys.mpr (hlinked.attachments a ha)
  · intro job' hjob'
    obtain ⟨job, hjob, -, hitem⟩ := commit_job hkept h hjob'
    rw [hitem]
    exact hkept.item_keys.mpr (hlinked.jobs job hjob)

end Others

-- =============================================================== invariant

/-- The attachment ids a delivery has drawn. -/
structure Drawn (delivered : List IngestCall) (c : IngestCall)
    (ids : List Uuid) : Prop where
  delivered : c ∈ delivered
  length : ids.length = c.mapped.attachments.length
  nodup : ids.Nodup

/-- What a delivery knows at a program point. It never finds a job. -/
def IngestPoint.Sound (delivered : List IngestCall) (db : Db) :
    IngestPoint → Prop
  | .idle | .raised _ => True
  | .insertItem c | .insertRows c _ => c ∈ delivered
  | .selectItem c => ∃ r ∈ db.items.rows, c.mapped.Matches r
  | .insertJob c _ ids => Drawn delivered c ids
  | .selectJob .. => False
  | .promote c itemId ids job own =>
      Drawn delivered c ids ∧ own = true
        ∧ ∃ jobId, job = newJob jobId itemId c.ownerUserId c.now
  | .commit c row job w =>
      (job = none ∧ w = .none ∧ row ∈ db.items.rows
          ∧ c.mapped.Matches row)
        ∨ ∃ itemId jobId ids, Drawn delivered c ids
          ∧ row = c.item itemId ∧ job = some (c.job jobId itemId)
          ∧ w = c.complete itemId jobId ids
  | .returned row _ => row ∈ db.items.rows

structure IngestInv {n : Nat} (s : IngestState n) : Prop where
  linked : IntakeLinked s.db
  once : ExactlyOnce s.delivered s.db
  sound : ∀ t, (s.tasks t).Sound s.delivered s.db
  reserved : Reserved s.db.ingested.keys fun t => (s.tasks t).writes.keys

section Steps

variable {n : Nat} {cfg : Settings} {s s' : IngestState n} {t : Fin n}
  {ids : List Uuid} {point : IngestPoint}

/-- More is delivered and more items are stored. -/
theorem IngestPoint.Sound.mono {delivered delivered' : List IngestCall}
    {db db' : Db} (h : point.Sound delivered db)
    (hdelivered : delivered ⊆ delivered')
    (hitems : db.items.rows ⊆ db'.items.rows) :
    point.Sound delivered' db' := by
  have hdrawn : ∀ {c ids}, Drawn delivered c ids →
      Drawn delivered' c ids :=
    fun hd => ⟨hdelivered hd.delivered, hd.length, hd.nodup⟩
  cases point with
  | idle => trivial
  | insertItem c => exact hdelivered h
  | selectItem c =>
      obtain ⟨r, hr, hmatch⟩ := h
      exact ⟨r, hitems hr, hmatch⟩
  | insertRows c itemId => exact hdelivered h
  | insertJob c itemId ids => exact hdrawn h
  | selectJob c itemId ids => exact h
  | promote c itemId ids job own => exact ⟨hdrawn h.1, h.2⟩
  | commit c row job w =>
      rcases h with ⟨hjob, hw, hrow, hmatch⟩ | ⟨itemId, jobId, ids, hd, hrest⟩
      · exact Or.inl ⟨hjob, hw, hitems hrow, hmatch⟩
      · exact Or.inr ⟨itemId, jobId, ids, hdrawn hd, hrest⟩
  | returned row job => exact hitems h
  | raised e => trivial

/-- What a transaction without writes claims. -/
theorem none_keys : IngestWrites.none.keys = ∅ := by
  ext k
  refine ⟨fun hk => ?_, fun hk => hk.elim⟩
  cases k with
  | item id => obtain ⟨_, hr, -⟩ := hk; cases hr
  | message source externalId => obtain ⟨_, hr, -⟩ := hk; cases hr
  | attachment id => obtain ⟨_, hr, -⟩ := hk; cases hr
  | job id => obtain ⟨_, hr, -⟩ := hk; cases hr

theorem moveTo_claims (s : IngestState n) (t : Fin n)
    (point : IngestPoint) :
    (fun t' => ((s.moveTo t point).tasks t').writes.keys)
      = Function.update (fun t' => (s.tasks t').writes.keys) t
          point.writes.keys :=
  Function.comp_update (fun p : IngestPoint => p.writes.keys) s.tasks t
    point

/-- A delivery moves to a sound point whose claims are free. -/
theorem IngestInv.moveTo (h : IngestInv s)
    (hsound : point.Sound s.delivered s.db)
    (hfree : ∀ k ∈ point.writes.keys, Free s.db.ingested.keys
      (fun t' => (s.tasks t').writes.keys) t k) :
    IngestInv (s.moveTo t point) := by
  refine { linked := h.linked, once := h.once, sound := ?_, reserved := ?_ }
  · intro t'
    show (Function.update s.tasks t point t').Sound _ _
    by_cases ht : t' = t
    · subst ht
      rw [Function.update_self]
      exact hsound
    · rw [Function.update_of_ne ht]
      exact h.sound t'
  · rw [moveTo_claims]
    exact h.reserved.move t hfree

/-- A delivery moves to a sound point without writes. -/
theorem IngestInv.moveTo_none (h : IngestInv s)
    (hsound : point.Sound s.delivered s.db)
    (hw : point.writes = .none) : IngestInv (s.moveTo t point) := by
  refine h.moveTo hsound fun k hk => ?_
  rw [hw, none_keys] at hk
  exact hk.elim

/-- What others have not written is claimed by nobody else. -/
theorem only_of_not_waits {p : IngestWrites → Prop} {k : IngestKey}
    (hw : ¬ s.Waits t p) (hp : ∀ {w : IngestWrites}, k ∈ w.keys → p w)
    (t' : Fin n) (hk : k ∈ (s.tasks t').writes.keys) : t' = t := by
  by_contra hne
  exact hw ⟨t', hne, hp hk⟩

/-- The item that is inserted has a new id and a new message. -/
theorem insertItem_free {c : IngestCall} {id : Uuid}
    (hany : ¬ (s.db.items.rows.any fun r => c.mapped.Matches r) = true)
    (hw : ¬ s.Waits t (IngestWrites.HasItem c.mapped id))
    (hid : ¬ (s.db.items.get id).isSome = true) :
    ∀ k ∈ (IngestPoint.insertRows c id).writes.keys,
      Free s.db.ingested.keys (fun t' => (s.tasks t').writes.keys) t k := by
  intro k hk
  cases k with
  | item id' =>
      obtain ⟨r, hr, rfl⟩ := hk
      rw [List.mem_singleton.mp hr]
      refine ⟨?_, only_of_not_waits hw ?_⟩
      · rintro ⟨r', hr', heq⟩
        have hget := Table.mem_rows.mp hr'
        have hkey : HasKey.key r' = id := heq
        rw [hkey] at hget
        exact hid (hget ▸ rfl)
      · exact fun ⟨r', hr', heq⟩ => ⟨r', hr', Or.inl heq⟩
  | message source externalId =>
      obtain ⟨r, hr, rfl, rfl⟩ := hk
      rw [List.mem_singleton.mp hr]
      refine ⟨?_, only_of_not_waits hw ?_⟩
      · rintro ⟨r', hr', heq⟩
        exact hany (List.any_eq_true.mpr ⟨r', hr', decide_eq_true heq⟩)
      · exact fun ⟨r', hr', heq⟩ => ⟨r', hr', Or.inr heq⟩
  | attachment id' => obtain ⟨_, hr, -⟩ := hk; cases hr
  | job id' => obtain ⟨_, hr, -⟩ := hk; cases hr

/-- So have the attachments. -/
theorem insertRows_free {c : IngestCall} {itemId : Uuid}
    {attachments : Table IngestionAttachment}
    (hold : ∀ k ∈ (IngestPoint.insertRows c itemId).writes.keys,
      Free s.db.ingested.keys (fun t' => (s.tasks t').writes.keys) t k)
    (hw : ¬ s.Waits t (IngestWrites.HasRows itemId ids))
    (hins : Table.insertAll (c.attachmentRows itemId ids)
      s.db.attachments = some attachments) :
    ∀ k ∈ (c.rows itemId ids).keys,
      Free s.db.ingested.keys (fun t' => (s.tasks t').writes.keys) t k := by
  intro k hk
  cases k with
  | item id => exact hold _ hk
  | message source externalId => exact hold _ hk
  | attachment id =>
      obtain ⟨a, ha, rfl⟩ := hk
      refine ⟨?_, only_of_not_waits hw ?_⟩
      · rintro ⟨a', ha', heq⟩
        have hget := (Table.insertAll_fresh hins).2 a ha
        have hkey : HasKey.key a' = HasKey.key a := heq
        rw [← hkey, Table.mem_rows.mp ha'] at hget
        cases hget
      · rintro w ⟨a', ha', heq⟩
        exact Or.inr ⟨a', ha', heq ▸ (mem_attachmentRows ha).1⟩
  | job id => obtain ⟨_, hr, -⟩ := hk; cases hr

/-- And the job. -/
theorem insertJob_free {c : IngestCall} {itemId id : Uuid}
    {job : ProcessingJob} (hjob : job.id = id)
    (hold : ∀ k ∈ (c.rows itemId ids).keys,
      Free s.db.ingested.keys (fun t' => (s.tasks t').writes.keys) t k)
    (hw : ¬ s.Waits t (IngestWrites.HasJob id itemId))
    (hid : ¬ (s.db.jobs.get id).isSome = true) :
    ∀ k ∈ ({ c.rows itemId ids with jobs := [job] } : IngestWrites).keys,
      Free s.db.ingested.keys (fun t' => (s.tasks t').writes.keys) t k := by
  intro k hk
  cases k with
  | item id' => exact hold (.item id') hk
  | message source externalId => exact hold (.message _ _) hk
  | attachment id' => exact hold (.attachment id') hk
  | job id' =>
      obtain ⟨r, hr, rfl⟩ := hk
      rw [List.mem_singleton.mp hr, hjob]
      refine ⟨?_, only_of_not_waits hw ?_⟩
      · rintro ⟨r', hr', heq⟩
        have hget := Table.mem_rows.mp hr'
        have hkey : HasKey.key r' = id := heq
        rw [hkey] at hget
        exact hid (hget ▸ rfl)
      · exact fun ⟨r', hr', heq⟩ => ⟨r', hr', Or.inl heq⟩

/-- Every statement leads to a sound point whose claims are free. -/
theorem statement_spec (h : IngestInv s)
    (hst : s.statement t ids = some point) :
    point.Sound s.delivered s.db
      ∧ ∀ k ∈ point.writes.keys, Free s.db.ingested.keys
          (fun t' => (s.tasks t').writes.keys) t k := by
  have hsound := h.sound t
  have hown : ∀ k ∈ (s.tasks t).writes.keys, Free s.db.ingested.keys
      (fun t' => (s.tasks t').writes.keys) t k :=
    fun k hk => h.reserved.free hk
  have hnone : ∀ k ∈ IngestWrites.none.keys, Free s.db.ingested.keys
      (fun t' => (s.tasks t').writes.keys) t k := by
    rw [none_keys]
    exact fun k hk => hk.elim
  unfold IngestState.statement at hst
  cases hpoint : s.tasks t with
  | idle => rw [hpoint] at hst; cases hst
  | returned row job => rw [hpoint] at hst; cases hst
  | raised e => rw [hpoint] at hst; cases hst
  | commit c row job w => rw [hpoint] at hst; cases hst
  | insertItem c =>
      rw [hpoint] at hst hsound
      cases ids with
      | nil => cases hst
      | cons id rest =>
      cases rest with
      | cons id' rest => cases hst
      | nil =>
          simp only at hst
          split at hst
          · rename_i hany
            injection hst with hst
            subst hst
            obtain ⟨r, hr, hmatch⟩ := List.any_eq_true.mp hany
            exact ⟨⟨r, hr, of_decide_eq_true hmatch⟩, hnone⟩
          rename_i hany
          split at hst
          · cases hst
          rename_i hw
          split at hst
          · injection hst with hst
            subst hst
            exact ⟨trivial, hnone⟩
          · rename_i hid
            injection hst with hst
            subst hst
            exact ⟨hsound, insertItem_free hany hw hid⟩
  | selectItem c =>
      rw [hpoint] at hst hsound
      simp only at hst
      split at hst
      · rename_i row hfind
        injection hst with hst
        subst hst
        have hmatch := List.find?_some hfind
        exact ⟨Or.inl ⟨rfl, rfl, List.mem_of_find?_eq_some hfind,
          of_decide_eq_true hmatch⟩, hnone⟩
      · injection hst with hst
        subst hst
        exact ⟨trivial, hnone⟩
  | insertRows c itemId =>
      rw [hpoint] at hst hsound hown
      simp only at hst
      split at hst
      · cases hst
      rename_i hlen
      split at hst
      · cases hst
      rename_i hw
      split at hst
      · rename_i _ attachments _ hins
        injection hst with hst
        subst hst
        have hlen' := not_not.mp hlen
        have hnodup := (Table.insertAll_fresh hins).1
        rw [show (c.attachmentRows itemId ids).map HasKey.key = ids from
          attachmentRows_ids hlen'] at hnodup
        exact ⟨⟨hsound, hlen', hnodup⟩, insertRows_free hown hw hins⟩
      · injection hst with hst
        subst hst
        exact ⟨trivial, hnone⟩
  | insertJob c itemId attachmentIds =>
      rw [hpoint] at hst hsound hown
      cases ids with
      | nil => cases hst
      | cons id rest =>
      cases rest with
      | cons id' rest => cases hst
      | nil =>
          simp only at hst
          split at hst
          · -- the item is new, so there is no job of it
            rename_i hany
            obtain ⟨job, hjob, heq⟩ := List.any_eq_true.mp hany
            have hheld := h.linked.jobs job hjob
            rw [of_decide_eq_true heq] at hheld
            have hitem := hown (.item itemId)
              ⟨_, List.mem_singleton_self _, rfl⟩
            exact absurd hheld hitem.1
          split at hst
          · cases hst
          rename_i hw
          split at hst
          · injection hst with hst
            subst hst
            exact ⟨trivial, hnone⟩
          · rename_i hid
            injection hst with hst
            subst hst
            exact ⟨⟨hsound, rfl, id, rfl⟩,
              insertJob_free rfl hown hw hid⟩
  | selectJob c itemId attachmentIds =>
      rw [hpoint] at hsound
      exact hsound.elim
  | promote c itemId attachmentIds job own =>
      rw [hpoint] at hst hsound hown
      obtain ⟨hd, rfl, jobId, rfl⟩ := hsound
      simp only [if_true] at hst
      injection hst with hst
      subst hst
      refine ⟨Or.inr ⟨itemId, jobId, attachmentIds, hd, rfl, rfl, rfl⟩, ?_⟩
      intro k hk
      cases k with
      | item id => exact hown (.item id) hk
      | message source externalId => exact hown (.message _ _) hk
      | attachment id => exact hown (.attachment id) hk
      | job id =>
          obtain ⟨r, hr, rfl⟩ := hk
          rw [List.mem_singleton.mp hr]
          exact hown (.job jobId) ⟨_, List.mem_singleton_self _, rfl⟩

/-- What a delivery claims at its commit is new. -/
theorem IngestInv.claims_new (h : IngestInv s) {c : IngestCall}
    {row : IngestionItem} {job : Option ProcessingJob} {w : IngestWrites}
    (hpoint : s.tasks t = .commit c row job w) :
    ∀ k ∈ w.keys, k ∉ s.db.ingested.keys := by
  intro k hk
  refine h.reserved.fresh (i := t) ?_
  rw [hpoint]
  exact hk

/-- A commit does not raise. It returns the item it found, or stores a
new one. -/
theorem commit_cases (h : IngestInv s) (hc : s.commit t = some s') :
    ∃ c row job w db', s.tasks t = .commit c row job w
      ∧ s' = { s with db := db' }.moveTo t (.returned row job)
      ∧ ((job = none ∧ db' = s.db ∧ row ∈ s.db.items.rows
          ∧ c.mapped.Matches row)
        ∨ ∃ itemId jobId ids, Drawn s.delivered c ids
          ∧ row = c.item itemId ∧ w = c.complete itemId jobId ids
          ∧ w.store c.now s.db = .ok db') := by
  have hsound := h.sound t
  unfold IngestState.commit at hc
  cases hpoint : s.tasks t with
  | commit c row job w =>
      rw [hpoint] at hc hsound
      rcases hsound with
        ⟨rfl, rfl, hrow⟩ | ⟨itemId, jobId, ids, hd, rfl, rfl, rfl⟩
      · injection hc with hc
        exact ⟨c, row, none, .none, s.db, rfl, hc.symm,
          Or.inl ⟨rfl, rfl, hrow⟩⟩
      · obtain ⟨db', hstore⟩ : ∃ db',
            (c.complete itemId jobId ids).store c.now s.db = .ok db' :=
          store_ok _ h.linked hd.length hd.nodup (h.claims_new hpoint)
        simp only [hstore] at hc
        injection hc with hc
        exact ⟨c, _, _, _, db', rfl, hc.symm,
          Or.inr ⟨itemId, jobId, ids, hd, rfl, rfl, hstore⟩⟩
  | idle => rw [hpoint] at hc; cases hc
  | insertItem c => rw [hpoint] at hc; cases hc
  | selectItem c => rw [hpoint] at hc; cases hc
  | insertRows c itemId => rw [hpoint] at hc; cases hc
  | insertJob c itemId ids => rw [hpoint] at hc; cases hc
  | selectJob c itemId ids => rw [hpoint] at hc; cases hc
  | promote c itemId ids job own => rw [hpoint] at hc; cases hc
  | returned row job => rw [hpoint] at hc; cases hc
  | raised e => rw [hpoint] at hc; cases hc

/-- A commit is an atomic `upsert` on the database it finds. -/
theorem commit_upserts (h : IngestInv s) (hc : s.commit t = some s') :
    ∃ c row job w itemId jobId ids, s.tasks t = .commit c row job w
      ∧ s'.tasks t = .returned row job
      ∧ upsert s.db c.now c.mapped c.ownerUserId itemId jobId ids
        = .ok s'.db := by
  obtain ⟨c, row, job, w, db', hpoint, rfl, hcase⟩ := commit_cases h hc
  have htask : ({ s with db := db' }.moveTo t (.returned row job)).tasks t
      = .returned row job := Function.update_self ..
  rcases hcase with
    ⟨-, rfl, hrow, hmatch⟩ | ⟨itemId, jobId, ids, -, -, rfl, hstore⟩
  · exact ⟨c, row, job, w, 0, 0, [], hpoint, htask,
      upsert_found ⟨row, hrow, hmatch⟩⟩
  · exact ⟨c, row, job, _, itemId, jobId, ids, hpoint, htask,
      upsert_of_store h.linked (h.claims_new hpoint) hstore⟩

/-- A commit keeps the invariant. -/
theorem commit_inv (h : IngestInv s) (hc : s.commit t = some s') :
    IngestInv s' := by
  obtain ⟨c, row, job, w, db', hpoint, rfl, hcase⟩ := commit_cases h hc
  rcases hcase with
    ⟨-, rfl, hrow, -⟩ | ⟨itemId, jobId, ids, hd, rfl, rfl, hstore⟩
  · exact h.moveTo_none hrow rfl
  have happ := store_appended rfl hstore
  have hnew := h.claims_new hpoint
  have hitems : s.db.items.rows ⊆ db'.items.rows := by
    rw [happ.items]
    exact List.subset_append_left _ _
  refine { linked := happ.linked h.linked, once := ?_, sound := ?_
           reserved := ?_ }
  · exact happ.once hd.delivered h.linked hd.length hnew h.once
  · intro t'
    show (Function.update s.tasks t _ t').Sound s.delivered db'
    by_cases ht : t' = t
    · subst ht
      rw [Function.update_self]
      show c.item itemId ∈ db'.items.rows
      rw [happ.items]
      exact List.mem_append_right _ (List.mem_singleton_self _)
    · rw [Function.update_of_ne ht]
      exact (h.sound t').mono (List.Subset.refl _) hitems
  · rw [moveTo_claims]
    show Reserved db'.ingested.keys (Function.update
      (fun t' => (s.tasks t').writes.keys) t IngestWrites.none.keys)
    rw [none_keys]
    refine h.reserved.publish t ?_
    rw [happ.held, hpoint]
    exact Set.Subset.refl _

/-- Every step keeps the invariant. -/
theorem step_inv {a : IngestAction n} (h : IngestInv s)
    (hstep : IngestState.step cfg a s = some s') : IngestInv s' := by
  cases a with
  | tick d =>
      injection hstep with hstep
      subst hstep
      exact ⟨h.linked, h.once, h.sound, h.reserved⟩
  | deliver t mapped owner =>
      unfold IngestState.step at hstep
      simp only at hstep
      split at hstep
      · injection hstep with hstep
        subst hstep
        have hmore : s.delivered ⊆ ⟨mapped, owner, s.now⟩ :: s.delivered :=
          List.subset_cons_self _ _
        have hmono : IngestInv { s with
            delivered := ⟨mapped, owner, s.now⟩ :: s.delivered } := {
          linked := h.linked
          once := ⟨h.once.unique, fun r hr =>
            let ⟨c, hc, hw⟩ := h.once.whole r hr
            ⟨c, hmore hc, hw⟩⟩
          sound := fun t' => (h.sound t').mono hmore
            (List.Subset.refl _)
          reserved := h.reserved }
        exact hmono.moveTo_none List.mem_cons_self rfl
      · cases hstep
  | statement t ids =>
      obtain ⟨point, hst, rfl⟩ := Option.map_eq_some_iff.mp hstep
      obtain ⟨hsound, hfree⟩ := statement_spec h hst
      exact h.moveTo hsound hfree
  | commit t => exact commit_inv h hstep
  | rollback t =>
      injection hstep with hstep
      subst hstep
      exact h.moveTo_none trivial rfl
  | other tx =>
      unfold IngestState.step at hstep
      simp only at hstep
      split at hstep
      · cases hstep
      rename_i htx
      split at hstep
      · rename_i db' hcommit
        injection hstep with hstep
        subst hstep
        have hkept := commit_intakeKept (by simpa using htx) hcommit
        exact {
          linked := hkept.linked hcommit h.linked
          once := hkept.once hcommit h.once
          sound := fun t' => (h.sound t').mono (List.Subset.refl _)
            (by rw [hkept.items]; exact List.Subset.refl _)
          reserved := h.reserved.anti (hkept.held hcommit) }
      · cases hstep

theorem init_inv : IngestInv (IngestState.init n) where
  linked := ⟨fun _ hm => absurd hm List.not_mem_nil,
    fun _ ha => absurd ha List.not_mem_nil,
    fun _ hj => absurd hj List.not_mem_nil⟩
  once := ⟨fun _ hr => absurd hr List.not_mem_nil,
    fun _ hr => absurd hr List.not_mem_nil⟩
  sound _ := trivial
  reserved := by
    show Reserved _ fun _ : Fin n => IngestWrites.none.keys
    rw [none_keys]
    exact Reserved.init

theorem reaches_inv (h : IngestReaches cfg s) : IngestInv s :=
  Lts.Reachable.invariant init_inv
    (fun _ _ _ _ hinv _ hstep => step_inv hinv hstep) h

theorem IngestInv.duplicates (h : IngestInv s) :
    DuplicateReturns cfg s := by
  refine { insertItem := ?_, selectItem := ?_, commit := ?_ }
  · rintro t c id hpoint ⟨r, hr, hmatch⟩
    have hany : (s.db.items.rows.any fun r => c.mapped.Matches r) = true :=
      List.any_eq_true.mpr ⟨r, hr, decide_eq_true hmatch⟩
    unfold IngestState.step IngestState.statement
    simp only [hpoint, if_pos hany, Option.map_some]
  · intro t c ids hpoint
    have hsound := h.sound t
    rw [hpoint] at hsound
    obtain ⟨r, hr, hmatch⟩ := hsound
    cases hfind : s.db.items.rows.find? fun r => c.mapped.Matches r with
    | none =>
        exact absurd (decide_eq_true hmatch)
          (List.find?_eq_none.mp hfind r hr)
    | some row =>
        have hrow := List.find?_some hfind
        refine ⟨row, List.mem_of_find?_eq_some hfind,
          of_decide_eq_true hrow, ?_⟩
        unfold IngestState.step IngestState.statement
        simp only [hpoint, hfind, Option.map_some]
  · intro t c row w hpoint
    have hsound := h.sound t
    rw [hpoint] at hsound
    rcases hsound with
      ⟨-, rfl, hrow, hmatch⟩ | ⟨_, _, _, -, -, hjob, -⟩
    · refine ⟨hrow, hmatch, ?_⟩
      unfold IngestState.step IngestState.commit
      simp only [hpoint]
      rfl
    · cases hjob

end Steps

-- ================================================================= theorem

/-- In every state `n` deliveries reach next to the other transactions,
the items are exactly those of the messages, and a duplicate changes no
table. -/
theorem ingested_exactly_once {n : Nat} {cfg : Settings}
    {s : IngestState n} (h : IngestReaches cfg s) :
    ExactlyOnce s.delivered s.db ∧ DuplicateReturns cfg s :=
  ⟨(reaches_inv h).once, (reaches_inv h).duplicates⟩

-- ================================================================ scenario

/-- A message with one attachment. -/
def sampleMessage : MappedItem :=
  { source := "email", externalId := "m1", providerThreadId := none
    attachments := ["a.pdf"] }

/-- The first delivery crashes, the second inserts the item while the
third waits for it and then finds it. -/
def redelivered : List (IngestAction 2) :=
  [.deliver 0 sampleMessage "ana", .statement 0 [1], .statement 0 [2],
    .rollback 0, .deliver 0 sampleMessage "ana",
    .deliver 1 sampleMessage "ana", .statement 0 [3], .statement 0 [4],
    .statement 0 [5], .statement 0 [], .commit 0, .statement 1 [6],
    .statement 1 [], .commit 1]

/-- One of the two that commit gets the job. -/
theorem redelivered_once : ∃ s : IngestState 2,
    (∃ row job, s.tasks 0 = .returned row (some job)
        ∧ job.state = .ready ∧ s.tasks 1 = .returned row none)
      ∧ ExactlyOnce s.delivered s.db
      ∧ DuplicateReturns Settings.default s := by
  have hrun : (Lts.run (IngestState.step Settings.default)
      (IngestState.init 2) redelivered).map
        (fun s => (s.tasks 0, s.tasks 1))
      = some (.returned ⟨3, "email", "m1", "ana"⟩
          (some (readiedJob 0 (newJob 5 3 "ana" 0))),
        .returned ⟨3, "email", "m1", "ana"⟩ none) := by
    decide +kernel
  obtain ⟨s, hs, hpoints⟩ := Option.map_eq_some_iff.mp hrun
  have hreach : IngestReaches Settings.default s :=
    Lts.reachable_of_run .init hs
  exact ⟨s, ⟨_, _, congrArg Prod.fst hpoints, rfl,
    congrArg Prod.snd hpoints⟩, ingested_exactly_once hreach⟩

end LegalBot
