/-
Which rows a read by key depends on.

# One owner's rows

Items, jobs and sessions carry their owner; the email of an item and the
artifacts of a session belong to the owner of that item and session.
`AgreeOn` says that two databases have the same rows of one owner.

# What agrees

A session's own artifacts and the thread of its email are its owner's
(`readFirst_agree`, `providerThreadId_agree`). What is left of
`read_resolved` is the search through the thread: its query selects
sessions by `provider_thread_id` alone, of whatever owner.

# What does not

A read that gets as far as the thread can be changed by rows of another
owner: `Db.join` adds a tenant with an email in the same thread, and the
read returns that tenant's artifact (`readResolved_join`). A read that
stops before is isolated; `reads_isolated_iff` has both.
-/
import LegalBot.Proofs.ReadBack
import Mathlib.Data.Set.Finite.Lattice

namespace LegalBot

open Relational (HasKey Table)

-- ============================================================== statements

/-- Foreign keys lead to rows of the same owner, and the unique indexes
on artifacts hold. -/
structure Db.Consistent (db : Db) : Prop where
  jobs : ∀ j ∈ db.jobs.rows, ∃ i, db.items.get j.ingestionItemId = some i
    ∧ i.ownerUserId = j.ownerUserId
  sessions : ∀ s ∈ db.sessions.rows, ∃ j, db.jobs.get s.jobId = some j
    ∧ j.ownerUserId = s.ownerUserId
  artifacts : ∀ r ∈ db.artifacts.rows,
    ∃ s, db.sessions.get r.sessionId = some s
  unique : db.artifacts.rows.Pairwise fun r r' => ¬ r.conflicts r'

/-- The same rows and blobs of one owner. -/
structure AgreeOn (owner : String) (db db' : Db) (blobs blobs' : Blobs) :
    Prop where
  items : ∀ i, i.ownerUserId = owner →
    (i ∈ db.items.rows ↔ i ∈ db'.items.rows)
  emails : ∀ i ∈ db.items.rows, i.ownerUserId = owner →
    ∀ e, e.ingestionItemId = i.id →
      (e ∈ db.emailMetadata.rows ↔ e ∈ db'.emailMetadata.rows)
  jobs : ∀ j, j.ownerUserId = owner →
    (j ∈ db.jobs.rows ↔ j ∈ db'.jobs.rows)
  sessions : ∀ s, s.ownerUserId = owner →
    (s ∈ db.sessions.rows ↔ s ∈ db'.sessions.rows)
  artifacts : ∀ s ∈ db.sessions.rows, s.ownerUserId = owner →
    ∀ r, r.sessionId = s.id →
      (r ∈ db.artifacts.rows ↔ r ∈ db'.artifacts.rows)
  blobs : ∀ s ∈ db.sessions.rows, s.ownerUserId = owner →
    ∀ r ∈ db.artifacts.rows, r.sessionId = s.id →
      ∀ ref, r.blobRef = some ref → blobs' ref = blobs ref

/-- The session has an artifact of that version under one of the keys. -/
def OwnArtifact (rows : List Artifact) (sid : Uuid)
    (version : Option Nat) (candidates : List String) : Prop :=
  ∃ r ∈ rows, r.sessionId = sid ∧ r.key ∈ candidates
    ∧ versionMatches version r = true

/-- `read_resolved` does not get as far as the thread: the key is blank,
the session has the artifact itself, or its email is in no thread. -/
def StopsBeforeThread (db : Db) (session : Session) (k : String)
    (version : Option Nat) : Prop :=
  artifactKeyCandidates k = []
    ∨ OwnArtifact db.artifacts.rows session.id version
      (artifactKeyCandidates k)
    ∨ ∀ thread, providerThreadId db session = some thread → thread = ""

/-- Other owners' rows make no difference to a read by key, and none of
them is returned. -/
def ReadIsolated (rt : Runtime) (db : Db) (blobs : Blobs)
    (session : Session) (k : String) (version : Option Nat) : Prop :=
  (∀ db' blobs', db'.Consistent →
      AgreeOn session.ownerUserId db db' blobs blobs' →
      readResolved rt db' blobs' session.id (.key k) version true
        = readResolved rt db blobs session.id (.key k) version true)
    ∧ ∀ row content,
      readResolved rt db blobs session.id (.key k) version true
        = .ok (row, content) →
      ∃ s ∈ db.sessions.rows, s.id = row.sessionId
        ∧ s.ownerUserId = session.ownerUserId

-- =================================================================== found

section Found

variable {rt : Runtime} {rows : List Artifact} {blobs : Blobs}
  {sid : Uuid} {version : Option Nat}

/-- A read that has matching rows ends there. -/
theorem read_of_match {k : String} {r : Artifact} (hr : r ∈ rows)
    (hmatch : readMatches sid (.key k) version r = true)
    {e : ArtifactError}
    (h : read rt rows blobs sid (.key k) version = .error e) :
    e.isNotFound = false := by
  have hmem : r ∈ rows.filter (readMatches sid (.key k) version) :=
    List.mem_filter.mpr ⟨hr, hmatch⟩
  unfold read at h
  generalize rows.filter (readMatches sid (.key k) version) = l at h hmem
  cases l with
  | nil => cases hmem
  | cons a rest =>
      cases rest with
      | nil =>
          simp only [scalarOneOrNone, bind, Except.bind] at h
          split at h
          · rename_i hpayload
            injection h with h
            subst h
            exact resolvePayload_error hpayload
          · cases h
      | cons b rest =>
          injection h with h
          subst h
          rfl

/-- The loop over the candidates falls through when no row is there. -/
theorem readFirst_none_iff {candidates : List String} :
    readFirst rt rows blobs sid version candidates = none
      ↔ ¬ OwnArtifact rows sid version candidates := by
  induction candidates with
  | nil =>
      refine ⟨fun _ => ?_, fun _ => rfl⟩
      rintro ⟨r, -, -, hkey, -⟩
      cases hkey
  | cons k rest ih =>
      by_cases hone : ∃ r ∈ rows,
          readMatches sid (.key k) version r = true
      · obtain ⟨r, hr, hmatch⟩ := hone
        obtain ⟨hsid, hkey, hversion⟩ := of_decide_eq_true hmatch
        have hown : OwnArtifact rows sid version (k :: rest) :=
          ⟨r, hr, hsid, hkey ▸ List.mem_cons_self .., hversion⟩
        refine ⟨fun h => ?_, fun h => absurd hown h⟩
        unfold readFirst at h
        cases hread : read rt rows blobs sid (.key k) version with
        | ok found =>
            rw [hread] at h
            cases h
        | error e =>
            rw [hread] at h
            simp only [read_of_match hr hmatch hread] at h
            cases h
      · have hnone : rows.filter (readMatches sid (.key k) version) = [] :=
          List.filter_eq_nil_iff.mpr fun r hr hmatch => hone ⟨r, hr, hmatch⟩
        have hskip : readFirst rt rows blobs sid version (k :: rest)
            = readFirst rt rows blobs sid version rest := by
          conv_lhs => unfold readFirst
          rw [read_none hnone]
          rfl
        rw [hskip, ih, not_iff_not]
        constructor
        · rintro ⟨r, hr, hsid, hkey, hversion⟩
          exact ⟨r, hr, hsid, List.mem_cons_of_mem _ hkey, hversion⟩
        · rintro ⟨r, hr, hsid, hkey, hversion⟩
          rcases List.mem_cons.mp hkey with hkey | hkey
          · exact absurd ⟨r, hr, decide_eq_true ⟨hsid, hkey, hversion⟩⟩ hone
          · exact ⟨r, hr, hsid, hkey, hversion⟩

end Found

-- =============================================================== agreement

theorem scalarOneOrNone_perm {α : Type} {l l' : List α} (h : l.Perm l') :
    scalarOneOrNone l = scalarOneOrNone l' := by
  have hlen := h.length_eq
  cases l with
  | nil => rw [h.nil_eq]
  | cons a rest =>
      cases rest with
      | nil => rw [List.singleton_perm.mp h]
      | cons b rest =>
          match l', hlen with
          | a' :: b' :: rest', _ => rfl

/-- A payload depends on the row's own blob. -/
theorem resolvePayload_of_blob {rt : Runtime} {blobs blobs' : Blobs}
    {row : Artifact}
    (h : ∀ ref, row.blobRef = some ref → blobs' ref = blobs ref) :
    resolvePayload rt blobs' row = resolvePayload rt blobs row := by
  unfold resolvePayload
  cases href : row.blobRef with
  | none => rfl
  | some ref => simp only [h ref href]

section Agreement

variable {rt : Runtime} {db db' : Db} {blobs blobs' : Blobs}
  {session : Session} {version : Option Nat}

/-- A session's own rows are its owner's. -/
theorem read_agree
    (h : AgreeOn session.ownerUserId db db' blobs blobs')
    (hs : session ∈ db.sessions.rows) (k : String) :
    read rt db'.artifacts.rows blobs' session.id (.key k) version
      = read rt db.artifacts.rows blobs session.id (.key k) version := by
  have hnodup : ∀ t : Table Artifact, t.rows.Nodup := fun t =>
    List.Nodup.of_map _ t.nodup
  have hperm : (db'.artifacts.rows.filter
      (readMatches session.id (.key k) version)).Perm
      (db.artifacts.rows.filter
        (readMatches session.id (.key k) version)) := by
    refine (List.perm_ext_iff_of_nodup ((hnodup _).filter _)
      ((hnodup _).filter _)).mpr fun r => ?_
    rw [List.mem_filter, List.mem_filter]
    refine and_congr_left fun hmatch => ?_
    exact (h.artifacts session hs rfl r (of_decide_eq_true hmatch).1).symm
  unfold read
  rw [scalarOneOrNone_perm hperm]
  cases hone : scalarOneOrNone (db.artifacts.rows.filter
      (readMatches session.id (.key k) version)) with
  | error e => rfl
  | ok found =>
      cases found with
      | none => rfl
      | some row =>
          have hmem : row ∈ db.artifacts.rows.filter
              (readMatches session.id (.key k) version) := by
            rw [scalarOneOrNone_some hone]
            exact List.mem_singleton_self _
          obtain ⟨hrow, hmatch⟩ := List.mem_filter.mp hmem
          show (resolvePayload rt blobs' row >>= _)
            = (resolvePayload rt blobs row >>= _)
          rw [resolvePayload_of_blob (h.blobs session hs rfl row hrow
            (of_decide_eq_true hmatch).1)]

theorem readFirst_agree
    (h : AgreeOn session.ownerUserId db db' blobs blobs')
    (hs : session ∈ db.sessions.rows) (candidates : List String) :
    readFirst rt db'.artifacts.rows blobs' session.id version candidates
      = readFirst rt db.artifacts.rows blobs session.id version
        candidates := by
  induction candidates with
  | nil => rfl
  | cons k rest ih =>
      unfold readFirst
      rw [read_agree h hs k, ih]

/-- So is the email it works on. -/
theorem providerThreadId_agree (hdb : db.Consistent)
    (h : AgreeOn session.ownerUserId db db' blobs blobs')
    (hs : session ∈ db.sessions.rows) :
    providerThreadId db' session = providerThreadId db session := by
  obtain ⟨job, hjob, hjobOwner⟩ := hdb.sessions session hs
  obtain ⟨item, hitem, hitemOwner⟩ :=
    hdb.jobs job (Table.get_some hjob).1
  have howner := hitemOwner.trans hjobOwner
  have hjob' : db'.jobs.get session.jobId = some job :=
    Table.get_of_shared hjob (h.jobs job hjobOwner).mp
  have hitem' : db'.items.get job.ingestionItemId = some item :=
    Table.get_of_shared hitem (h.items item howner).mp
  have hemail : db'.emailMetadata.get item.id
      = db.emailMetadata.get item.id := by
    have hemails := h.emails item (Table.get_some hitem).1 howner
    cases hget : db.emailMetadata.get item.id with
    | some email =>
        exact Table.get_of_shared hget
          (hemails email (Table.key_of_get hget)).mp
    | none =>
        cases hget' : db'.emailMetadata.get item.id with
        | none => rfl
        | some email =>
            rw [Table.get_of_shared hget'
              (hemails email (Table.key_of_get hget')).mpr] at hget
            cases hget
  unfold providerThreadId
  simp only [hjob, hjob', hitem, hitem', hemail, bind, Option.bind_some]

theorem StopsBeforeThread.agree {k : String} (hdb : db.Consistent)
    (h : AgreeOn session.ownerUserId db db' blobs blobs')
    (hs : session ∈ db.sessions.rows)
    (hstops : StopsBeforeThread db session k version) :
    StopsBeforeThread db' session k version := by
  rcases hstops with hblank | ⟨r, hr, hsid, hkey⟩ | hthread
  · exact Or.inl hblank
  · exact Or.inr (Or.inl
      ⟨r, (h.artifacts session hs rfl r hsid).mp hr, hsid, hkey⟩)
  · refine Or.inr (Or.inr fun thread hget => hthread thread ?_)
    rw [← providerThreadId_agree hdb h hs]
    exact hget

/-- A read that stops before the thread is one without the fallback. -/
theorem readResolved_of_stops {k : String}
    (hs : session ∈ db.sessions.rows)
    (hstops : StopsBeforeThread db session k version) :
    readResolved rt db blobs session.id (.key k) version true
      = readResolved rt db blobs session.id (.key k) version false := by
  have hget : db.sessions.get session.id = some session :=
    Table.get_of_mem hs
  unfold readResolved
  simp only
  rcases hstops with hblank | hown | hthread
  · rw [hblank]
    rfl
  · cases hfirst : readFirst rt db.artifacts.rows blobs session.id version
        (artifactKeyCandidates k) with
    | none => exact absurd hown (readFirst_none_iff.mp hfirst)
    | some found => rfl
  · have hids : sessionIdsInEmailThread db session.id = [session.id] := by
      unfold sessionIdsInEmailThread
      rw [hget]
      simp only [Option.bind_some]
      cases hthread' : providerThreadId db session with
      | none => rfl
      | some thread => simp only [hthread thread hthread', if_true]
    have hnone : readSiblings rt db.artifacts.rows blobs session.id version
        (artifactKeyCandidates k) [session.id] = none := by
      unfold readSiblings
      rw [if_pos rfl]
      rfl
    rw [hids, hnone]
    rfl

/-- Without the fallback, a read sees its session's rows only. -/
theorem readResolved_own_agree {k : String}
    (h : AgreeOn session.ownerUserId db db' blobs blobs')
    (hs : session ∈ db.sessions.rows) :
    readResolved rt db' blobs' session.id (.key k) version false
      = readResolved rt db blobs session.id (.key k) version false := by
  unfold readResolved
  simp only [readFirst_agree h hs, Bool.false_eq_true, if_false]

theorem readResolved_own_session {k : String} {row : Artifact}
    {content : Content}
    (h : readResolved rt db blobs session.id (.key k) version false
      = .ok (row, content)) : row.sessionId = session.id := by
  unfold readResolved at h
  simp only at h
  split at h
  · cases h
  · split at h
    · rename_i found hfirst
      subst h
      exact (readFirst_ok hfirst).2.1
    · cases h

/-- A read that stops before the thread is isolated. -/
theorem isolated_of_stops {k : String} (hdb : db.Consistent)
    (hs : session ∈ db.sessions.rows)
    (hstops : StopsBeforeThread db session k version) :
    ReadIsolated rt db blobs session k version := by
  refine ⟨fun db' blobs' _ hagree => ?_, fun row content hread => ?_⟩
  · have hs' : session ∈ db'.sessions.rows :=
      (hagree.sessions session rfl).mp hs
    rw [readResolved_of_stops hs' (hstops.agree hdb hagree hs),
      readResolved_of_stops hs hstops]
    exact readResolved_own_agree hagree hs
  · rw [readResolved_of_stops hs hstops] at hread
    exact ⟨session, hs, (readResolved_own_session hread).symm, rfl⟩

end Agreement

-- =========================================================== another tenant

/-- An email of one owner, with the job, the session and an artifact that
came of it. -/
structure TenantRows where
  item : IngestionItem
  email : EmailMetadata
  job : ProcessingJob
  session : Session
  artifact : Artifact
  emailOf : email.ingestionItemId = item.id
  jobOf : job.ingestionItemId = item.id
  jobOwner : job.ownerUserId = item.ownerUserId
  sessionOf : session.jobId = job.id
  sessionOwner : session.ownerUserId = item.ownerUserId
  artifactOf : artifact.sessionId = session.id

/-- None of their ids is taken. -/
structure TenantRows.Fresh (t : TenantRows) (db : Db) : Prop where
  item : HasKey.key t.item ∉ db.items.rows.map HasKey.key
  email : HasKey.key t.email ∉ db.emailMetadata.rows.map HasKey.key
  job : HasKey.key t.job ∉ db.jobs.rows.map HasKey.key
  session : HasKey.key t.session ∉ db.sessions.rows.map HasKey.key
  artifact : HasKey.key t.artifact ∉ db.artifacts.rows.map HasKey.key

/-- The database with one more tenant. -/
def Db.join (db : Db) (t : TenantRows) (h : t.Fresh db) : Db :=
  { db with
    items := db.items.cons t.item h.item
    emailMetadata := db.emailMetadata.cons t.email h.email
    jobs := db.jobs.cons t.job h.job
    sessions := db.sessions.cons t.session h.session
    artifacts := db.artifacts.cons t.artifact h.artifact }

/-- The database with the item, the job and the session of a tenant. -/
def Db.enroll (db : Db) (t : TenantRows) (h : t.Fresh db) : Db :=
  { db with
    items := db.items.cons t.item h.item
    jobs := db.jobs.cons t.job h.job
    sessions := db.sessions.cons t.session h.session }

section Join

variable {rt : Runtime} {db : Db} {blobs : Blobs} {t : TenantRows}
  {session : Session} {version : Option Nat}

/-- No artifact there belongs to a session that is not. -/
theorem Db.Consistent.foreign_session (hdb : db.Consistent)
    (h : t.Fresh db) {r : Artifact} (hr : r ∈ db.artifacts.rows) :
    r.sessionId ≠ t.session.id := by
  obtain ⟨s, hs⟩ := hdb.artifacts r hr
  obtain ⟨hmem, hid⟩ := Table.get_some hs
  intro heq
  refine h.session (List.mem_map.mpr ⟨s, hmem, ?_⟩)
  exact hid.trans heq

theorem enroll_consistent (hdb : db.Consistent) (h : t.Fresh db) :
    (db.enroll t h).Consistent := by
  refine ⟨fun j hj => ?_, fun s hs => ?_, fun r hr => ?_, hdb.unique⟩
  · rcases List.mem_cons.mp hj with rfl | hj
    · refine ⟨t.item, ?_, t.jobOwner.symm⟩
      rw [t.jobOf]
      exact Table.get_cons_self h.item
    · obtain ⟨i, hi, howner⟩ := hdb.jobs j hj
      exact ⟨i, Table.get_cons_of_some h.item hi, howner⟩
  · rcases List.mem_cons.mp hs with rfl | hs
    · refine ⟨t.job, ?_, t.jobOwner.trans t.sessionOwner.symm⟩
      rw [t.sessionOf]
      exact Table.get_cons_self h.job
    · obtain ⟨j, hj, howner⟩ := hdb.sessions s hs
      exact ⟨j, Table.get_cons_of_some h.job hj, howner⟩
  · obtain ⟨s, hs⟩ := hdb.artifacts r hr
    exact ⟨s, Table.get_cons_of_some h.session hs⟩

theorem join_consistent (hdb : db.Consistent) (h : t.Fresh db) :
    (db.join t h).Consistent := by
  have henrolled := enroll_consistent hdb h
  refine ⟨henrolled.jobs, henrolled.sessions, fun r hr => ?_, ?_⟩
  · rcases List.mem_cons.mp hr with rfl | hr
    · refine ⟨t.session, ?_⟩
      rw [t.artifactOf]
      exact Table.get_cons_self h.session
    · exact henrolled.artifacts r hr
  · refine List.pairwise_cons.mpr ⟨fun r hr hconflict => ?_, hdb.unique⟩
    rcases hconflict with hid | ⟨hsid, -⟩
    · exact h.artifact (List.mem_map.mpr ⟨r, hr, hid.symm⟩)
    · exact hdb.foreign_session h hr (hsid.symm.trans t.artifactOf)

/-- Another tenant changes no row of this one. -/
theorem join_agree {owner : String} (h : t.Fresh db)
    (howner : t.item.ownerUserId ≠ owner) :
    AgreeOn owner db (db.join t h) blobs blobs := by
  refine ⟨fun i hi => ?_, fun i hi _ e he => ?_, fun j hj => ?_,
    fun s hs => ?_, fun s hs _ r hr => ?_, fun _ _ _ _ _ _ _ _ => rfl⟩
  · refine ⟨List.mem_cons_of_mem _, fun hmem => ?_⟩
    exact (List.mem_cons.mp hmem).resolve_left fun heq =>
      howner (heq ▸ hi)
  · refine ⟨List.mem_cons_of_mem _, fun hmem => ?_⟩
    refine (List.mem_cons.mp hmem).resolve_left fun heq => ?_
    subst heq
    exact h.item (List.mem_map.mpr ⟨i, hi, he.symm.trans t.emailOf⟩)
  · refine ⟨List.mem_cons_of_mem _, fun hmem => ?_⟩
    exact (List.mem_cons.mp hmem).resolve_left fun heq =>
      howner (t.jobOwner.symm.trans (heq ▸ hj))
  · refine ⟨List.mem_cons_of_mem _, fun hmem => ?_⟩
    exact (List.mem_cons.mp hmem).resolve_left fun heq =>
      howner (t.sessionOwner.symm.trans (heq ▸ hs))
  · refine ⟨List.mem_cons_of_mem _, fun hmem => ?_⟩
    refine (List.mem_cons.mp hmem).resolve_left fun heq => ?_
    subst heq
    exact h.session (List.mem_map.mpr ⟨s, hs, hr.symm.trans t.artifactOf⟩)

theorem providerThreadId_join (h : t.Fresh db) :
    providerThreadId (db.join t h) t.session
      = t.email.providerThreadId := by
  have hjob : (db.join t h).jobs.get t.session.jobId = some t.job := by
    rw [t.sessionOf]
    exact Table.get_cons_self h.job
  have hitem : (db.join t h).items.get t.job.ingestionItemId
      = some t.item := by
    rw [t.jobOf]
    exact Table.get_cons_self h.item
  have hemail : (db.join t h).emailMetadata.get t.item.id
      = some t.email := by
    rw [← t.emailOf]
    exact Table.get_cons_self h.email
  unfold providerThreadId
  simp only [hjob, hitem, hemail, bind, Option.bind_some]

/-- An earlier session in the same thread comes first. -/
theorem sessionIds_join {thread : String} (hdb : db.Consistent)
    (h : t.Fresh db) (hs : session ∈ db.sessions.rows)
    (howner : t.item.ownerUserId ≠ session.ownerUserId)
    (hthread : providerThreadId db session = some thread)
    (hne : thread ≠ "") (hsame : t.email.providerThreadId = some thread)
    (hprimary : t.session.kind = .primary)
    (hfirst : ∀ s ∈ db.sessions.rows,
      t.session.createdAt < s.createdAt) :
    ∃ rest, sessionIdsInEmailThread (db.join t h) session.id
      = t.session.id :: rest := by
  have hget : (db.join t h).sessions.get session.id = some session :=
    Table.get_cons_of_some h.session (Table.get_of_mem hs)
  have hagree : AgreeOn session.ownerUserId db (db.join t h)
      (fun _ => none) (fun _ => none) := join_agree h howner
  have hthread' : providerThreadId (db.join t h) session = some thread := by
    rw [providerThreadId_agree hdb hagree hs]
    exact hthread
  have hselected : (db.join t h).sessions.rows.filter (fun s =>
      s.kind = .primary ∧ providerThreadId (db.join t h) s = some thread)
      = t.session :: db.sessions.rows.filter (fun s => s.kind = .primary
        ∧ providerThreadId (db.join t h) s = some thread) := by
    refine List.filter_cons_of_pos (decide_eq_true ⟨hprimary, ?_⟩)
    rw [providerThreadId_join h]
    exact hsame
  unfold sessionIdsInEmailThread
  rw [hget]
  simp only [Option.bind_some, hthread', if_neg hne]
  rw [hselected, List.insertionSort_cons_of_forall_rel]
  · exact ⟨_, rfl⟩
  · intro s hs
    exact le_of_lt (hfirst s (List.mem_filter.mp hs).1)

/-- A read that gets as far as the thread returns the artifact of a
tenant that joined it. -/
theorem readResolved_join {thread k c : String} {candidates : List String}
    {content : Content} (hdb : db.Consistent)
    (h : t.Fresh db) (hs : session ∈ db.sessions.rows)
    (howner : t.item.ownerUserId ≠ session.ownerUserId)
    (hthread : providerThreadId db session = some thread)
    (hne : thread ≠ "") (hsame : t.email.providerThreadId = some thread)
    (hprimary : t.session.kind = .primary)
    (hfirst : ∀ s ∈ db.sessions.rows, t.session.createdAt < s.createdAt)
    (hcandidates : artifactKeyCandidates k = c :: candidates)
    (hown : ¬ OwnArtifact db.artifacts.rows session.id version
      (artifactKeyCandidates k))
    (hkey : t.artifact.key = c)
    (hversion : versionMatches version t.artifact = true)
    (hcontent : resolvePayload rt blobs t.artifact = .ok content) :
    readResolved rt (db.join t h) blobs session.id (.key k) version true
      = .ok (t.artifact, content) := by
  have hagree : AgreeOn session.ownerUserId db (db.join t h) blobs blobs :=
    join_agree h howner
  obtain ⟨rest, hids⟩ := sessionIds_join hdb h hs howner hthread hne hsame
    hprimary hfirst
  have hother : t.session.id ≠ session.id := fun heq =>
    h.session (List.mem_map.mpr ⟨session, hs, heq.symm⟩)
  have hnone : readFirst rt (db.join t h).artifacts.rows blobs session.id
      version (artifactKeyCandidates k) = none := by
    rw [readFirst_agree hagree hs]
    exact readFirst_none_iff.mpr hown
  have hone : (db.join t h).artifacts.rows.filter
      (readMatches t.session.id (.key c) version) = [t.artifact] := by
    have hrest : db.artifacts.rows.filter
        (readMatches t.session.id (.key c) version) = [] :=
      List.filter_eq_nil_iff.mpr fun r hr hmatch =>
        hdb.foreign_session h hr (of_decide_eq_true hmatch).1
    have hmatch : readMatches t.session.id (.key c) version t.artifact
        = true := decide_eq_true ⟨t.artifactOf, hkey, hversion⟩
    show (t.artifact :: db.artifacts.rows).filter _ = _
    rw [List.filter_cons_of_pos hmatch, hrest]
  have hread : read rt (db.join t h).artifacts.rows blobs t.session.id
      (.key c) version = .ok (t.artifact, content) := by
    rw [read_one hone, hcontent]
    rfl
  unfold readResolved
  simp only [hnone, hids, if_true]
  rw [hcandidates]
  unfold readSiblings readFirst
  rw [if_neg hother, hread]
  rfl

end Join

/-- A tenant with one artifact, the value `1` under `key`. -/
def tenant (id : Uuid) (createdAt : Time) (owner : String)
    (thread : Option String) (key : String) (version : Nat) :
    TenantRows where
  item :=
    { id := id, source := "email", externalId := "m", ownerUserId := owner }
  email := { ingestionItemId := id, providerThreadId := thread }
  job :=
    { id := id, ingestionItemId := id, state := .completed, priority := 0
      attempts := 1, lastError := none, errorKind := none
      dispatchedAt := none, processingStartedAt := none, finishedAt := none
      currentSessionId := some id, ownerUserId := owner
      createdAt := createdAt, updatedAt := createdAt }
  session :=
    { id := id, jobId := id, threadId := "t", kind := .primary
      parentSessionId := none, branchFromRunId := none
      branchFromCheckpointId := none, status := .idle
      interruptKind := none, activeInterruptId := none, messageCount := 0
      lastActivityAt := none, ownerUserId := owner, createdAt := createdAt }
  artifact :=
    { id := id, sessionId := id, runId := none, producer := "extract"
      kind := "extracted_data", key := key, version := version
      mime := "application/json", storage := .inline
      contentInline := some (.int 1), blobRef := none
      checksum :=
        "6b86b273ff34fce19d6b804eff5a3f5747ada4eaa22f1d49c01e52ddb7875b4b"
      sizeBytes := 1, metadata := .obj [], supersedesArtifactId := none
      isLatest := true, createdBy := none }
  emailOf := rfl
  jobOf := rfl
  jobOwner := rfl
  sessionOf := rfl
  sessionOwner := rfl
  artifactOf := rfl

/-- There is an id that no row has. -/
theorem exists_fresh (db : Db) : ∃ id, ∀ createdAt owner thread key version,
    (tenant id createdAt owner thread key version).Fresh db := by
  obtain ⟨top, htop⟩ := (List.finite_toSet
    (db.items.rows.map HasKey.key ++ db.emailMetadata.rows.map HasKey.key
      ++ db.jobs.rows.map HasKey.key ++ db.sessions.rows.map HasKey.key
      ++ db.artifacts.rows.map HasKey.key)).bddAbove
  have habove : ∀ x, x ∈ db.items.rows.map HasKey.key
      ++ db.emailMetadata.rows.map HasKey.key
      ++ db.jobs.rows.map HasKey.key ++ db.sessions.rows.map HasKey.key
      ++ db.artifacts.rows.map HasKey.key → x ≠ top + 1 := by
    intro x hx heq
    have hle : x ≤ top := htop hx
    rw [heq] at hle
    exact Nat.not_succ_le_self top hle
  simp only [List.mem_append] at habove
  refine ⟨top + 1, fun createdAt owner thread key version =>
    ⟨?_, ?_, ?_, ?_, ?_⟩⟩
  · exact fun hmem => habove _ (by tauto) rfl
  · exact fun hmem => habove _ (by tauto) rfl
  · exact fun hmem => habove _ (by tauto) rfl
  · exact fun hmem => habove _ (by tauto) rfl
  · exact fun hmem => habove _ (by tauto) rfl

/-- And a time before every session. -/
theorem exists_before (db : Db) :
    ∃ time : Time, ∀ s ∈ db.sessions.rows, time < s.createdAt := by
  obtain ⟨low, hlow⟩ :=
    (List.finite_toSet (db.sessions.rows.map (·.createdAt))).bddBelow
  refine ⟨low - 1, fun s hs => ?_⟩
  have hle : low ≤ s.createdAt := hlow (List.mem_map_of_mem hs)
  exact lt_of_lt_of_le (Int.sub_lt_self low Int.one_pos) hle

-- ==================================================================== reads

/-- A read by key is isolated from other owners exactly when it does not
get as far as the thread. -/
theorem reads_isolated_iff {rt : Runtime} {db : Db} {blobs : Blobs}
    {session : Session} {k : String} {version : Option Nat}
    (hdb : db.Consistent) (hs : session ∈ db.sessions.rows) :
    ReadIsolated rt db blobs session k version
      ↔ StopsBeforeThread db session k version := by
  refine ⟨fun hisolated => ?_, isolated_of_stops hdb hs⟩
  by_contra hstops
  unfold StopsBeforeThread at hstops
  push Not at hstops
  obtain ⟨hcandidates, hown, thread, hthread, hne⟩ := hstops
  obtain ⟨c, candidates, hcons⟩ := List.exists_cons_of_ne_nil hcandidates
  obtain ⟨id, hfresh⟩ := exists_fresh db
  obtain ⟨time, hbefore⟩ := exists_before db
  -- a tenant of another name, in the same thread, before all sessions
  have howner : session.ownerUserId ++ "'" ≠ session.ownerUserId := by
    intro heq
    have hlen := congrArg String.length heq
    rw [String.length_append] at hlen
    have hone : "'".length = 1 := rfl
    omega
  have h := hfresh time (session.ownerUserId ++ "'") (some thread) c
    (version.getD 1)
  have hversion : versionMatches version (tenant id time
      (session.ownerUserId ++ "'") (some thread) c
      (version.getD 1)).artifact = true := by
    cases version with
    | none => rfl
    | some v => exact decide_eq_true rfl
  have hread : readResolved rt (db.join _ h) blobs session.id (.key k)
      version true = .ok (_, .value (.int 1)) :=
    readResolved_join hdb h hs howner hthread hne rfl rfl hbefore hcons
      hown rfl hversion rfl
  rw [hisolated.1 _ blobs (join_consistent hdb h) (join_agree h howner)]
    at hread
  have hmem := (readResolved_ok hread).1
  exact h.artifact (List.mem_map_of_mem hmem)

/-- Alice's session 10, with the artifact `extracted_data/own.docx`. -/
def alice : TenantRows :=
  tenant 10 1 "alice" (some "thread") "extracted_data/own.docx" 1

/-- Bob's session 20 in a thread of the same name. -/
def bob : TenantRows :=
  tenant 20 0 "bob" (some "thread") "extracted_data/nda.docx" 1

theorem alice_fresh : alice.Fresh Db.empty := by
  constructor <;> decide

theorem bob_fresh : bob.Fresh (Db.empty.join alice alice_fresh) := by
  constructor <;> decide

theorem empty_consistent : Db.empty.Consistent :=
  ⟨fun _ hj => absurd hj List.not_mem_nil,
    fun _ hs => absurd hs List.not_mem_nil,
    fun _ hr => absurd hr List.not_mem_nil, List.Pairwise.nil⟩

/-- Alice reads her own artifact whatever rows others have. -/
theorem own_read_isolated :
    ReadIsolated Runtime.sample (Db.empty.join alice alice_fresh)
      (fun _ => none) alice.session "own.docx" none :=
  (reads_isolated_iff (join_consistent empty_consistent alice_fresh)
    (List.mem_cons_self ..)).mpr
    (Or.inr (Or.inl ⟨alice.artifact, List.mem_cons_self .., rfl,
      by decide, rfl⟩))

/-- Alice asks for a file she does not have and gets Bob's. -/
theorem other_owner_read :
    let db := Db.empty.join alice alice_fresh
    let db' := db.join bob bob_fresh
    db.Consistent ∧ db'.Consistent
      ∧ AgreeOn "alice" db db' (fun _ => none) (fun _ => none)
      ∧ alice.session ∈ db.sessions.rows
      ∧ alice.session.ownerUserId = "alice"
      ∧ readResolved Runtime.sample db (fun _ => none) 10
          (.key "nda.docx") none true = .error (.notFound "nda.docx")
      ∧ readResolved Runtime.sample db' (fun _ => none) 10
          (.key "nda.docx") none true
        = .ok (bob.artifact, .value (.int 1)) := by
  have hdb := join_consistent empty_consistent alice_fresh
  refine ⟨hdb, join_consistent hdb bob_fresh,
    join_agree bob_fresh (by decide), List.mem_cons_self .., rfl, ?_, ?_⟩
  · decide +kernel
  · decide +kernel

end LegalBot
