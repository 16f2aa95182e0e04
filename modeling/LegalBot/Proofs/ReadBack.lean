/-
What a reader gets of what a writer stored.

# By content

`read` decides by the row's mime type what to make of a payload, and has
no case for text: a `str` written under a text mime comes back as its
UTF-8 bytes. JSON values and bytes come back as they were written
(`read_returns_written_iff`).

# By key

`write` stores the key as it is, `read_resolved` looks for the
candidates of the key it is given. A row that `read_resolved` returns is
stored under a candidate (`readResolved_ok`), so a key that is not
its own candidate cannot be read back (`readable_by_own_key_iff`).
-/
import LegalBot.Proofs.StoredContent

namespace LegalBot

open Relational (Table)

-- ================================================================= content

section Content

variable {rt : Runtime} {svc : ArtifactService}
  {artifacts artifacts' : Table Artifact} {blobs blobs' : Blobs}
  {a : WriteArgs} {id : Uuid} {row : Artifact}

/-- A JSON value is read back as it was written. -/
theorem read_written_value (hmime : a.mime = "application/json")
    (hloads : ∀ v, a.content = .value v → LoadsBack rt v)
    (h : write rt svc artifacts blobs a id = .ok (row, artifacts', blobs')) :
    read rt artifacts'.rows blobs' a.sessionId (.key a.key) none
      = .ok (row, a.content) := by
  obtain ⟨hholds, hrow, -, -⟩ := write_holds h
  obtain ⟨v, hv⟩ := hholds.value (hrow.trans hmime)
  rw [hv] at hholds
  rw [read_one (write_latest h),
    hholds.resolve_value (hrow.trans hmime) (hloads v hv), hv]
  rfl

/-- Under any other mime type the bytes are read back. -/
theorem read_written_bytes (hmime : a.mime ≠ "application/json")
    (h : write rt svc artifacts blobs a id = .ok (row, artifacts', blobs')) :
    ∃ data, payloadBytes rt a.mime a.content = .ok data
      ∧ read rt artifacts'.rows blobs' a.sessionId (.key a.key) none
        = .ok (row, .bytes data) := by
  obtain ⟨hholds, hrow, -, -⟩ := write_holds h
  obtain ⟨data, hdata, hread⟩ := hholds.resolve_bytes (hrow ▸ hmime)
  refine ⟨data, hrow ▸ hdata, ?_⟩
  rw [read_one (write_latest h), hread]
  rfl

end Content

/-- A write in session 10. -/
def storing (key : String) (mime : String) (content : Content) :
    WriteArgs :=
  { sessionId := 10, key := key, content := content, kind := "custom"
    producer := "agent", runId := none, mime := mime, metadata := none
    createdBy := none }

/-- The storage of a row written is that of a write that returned. -/
theorem exists_written {rt : Runtime} {svc : ArtifactService}
    {artifacts : Table Artifact} {blobs : Blobs} {a : WriteArgs} {id : Uuid}
    {storage : ArtifactStorage}
    (h : (write rt svc artifacts blobs a id).map
      (fun stored => stored.1.storage) = .ok storage) :
    ∃ row artifacts' blobs', row.storage = storage
      ∧ write rt svc artifacts blobs a id
        = .ok (row, artifacts', blobs') := by
  cases hw : write rt svc artifacts blobs a id with
  | error e =>
      rw [hw] at h
      cases h
  | ok stored =>
      obtain ⟨row, artifacts', blobs'⟩ := stored
      rw [hw] at h
      injection h with h
      exact ⟨row, artifacts', blobs', h, rfl⟩

section Keys

variable {rt : Runtime} {rows : List Artifact} {blobs : Blobs}
  {sid : Uuid} {version : Option Nat} {row : Artifact} {content : Content}

/-- A row read by key is stored under that key. -/
theorem read_key {k : String}
    (h : read rt rows blobs sid (.key k) version = .ok (row, content)) :
    row ∈ rows ∧ row.sessionId = sid ∧ row.key = k := by
  obtain ⟨hone, -⟩ := read_ok h
  have hmem : row ∈ rows.filter (readMatches sid (.key k) version) := by
    rw [hone]
    exact List.mem_singleton_self _
  obtain ⟨hrow, hmatch⟩ := List.mem_filter.mp hmem
  obtain ⟨hsid, hkey, -⟩ := of_decide_eq_true hmatch
  exact ⟨hrow, hsid, hkey⟩

theorem readFirst_ok {candidates : List String}
    (h : readFirst rt rows blobs sid version candidates
      = some (.ok (row, content))) :
    row ∈ rows ∧ row.sessionId = sid ∧ row.key ∈ candidates := by
  induction candidates with
  | nil => cases h
  | cons k rest ih =>
      unfold readFirst at h
      cases hread : read rt rows blobs sid (.key k) version with
      | ok found =>
          rw [hread] at h
          simp only at h
          injection h with h
          injection h with h
          subst h
          obtain ⟨hrow, hsid, hkey⟩ := read_key hread
          exact ⟨hrow, hsid, hkey ▸ List.mem_cons_self ..⟩
      | error e =>
          rw [hread] at h
          simp only at h
          split at h
          · obtain ⟨hrow, hsid, hkey⟩ := ih h
            exact ⟨hrow, hsid, List.mem_cons_of_mem _ hkey⟩
          · injection h with h
            cases h

theorem readSiblings_ok {candidates : List String} {ids : List Uuid}
    (h : readSiblings rt rows blobs sid version candidates ids
      = some (.ok (row, content))) :
    row ∈ rows ∧ row.sessionId ∈ ids ∧ row.key ∈ candidates := by
  induction ids with
  | nil => cases h
  | cons sibling rest ih =>
      unfold readSiblings at h
      split at h
      · obtain ⟨hrow, hsid, hkey⟩ := ih h
        exact ⟨hrow, List.mem_cons_of_mem _ hsid, hkey⟩
      · split at h
        · rename_i found hfirst
          injection h with h
          subst h
          obtain ⟨hrow, hsid, hkey⟩ := readFirst_ok hfirst
          exact ⟨hrow, hsid ▸ List.mem_cons_self .., hkey⟩
        · obtain ⟨hrow, hsid, hkey⟩ := ih h
          exact ⟨hrow, List.mem_cons_of_mem _ hsid, hkey⟩

/-- What `read_resolved` returns by a key is a row of the session or of
its thread, under a candidate of the key. -/
theorem readResolved_ok {db : Db} {k : String} {fallback : Bool}
    (h : readResolved rt db blobs sid (.key k) version fallback
      = .ok (row, content)) :
    row ∈ db.artifacts.rows
      ∧ (row.sessionId = sid
        ∨ row.sessionId ∈ sessionIdsInEmailThread db sid)
      ∧ row.key ∈ artifactKeyCandidates k := by
  unfold readResolved at h
  simp only at h
  split at h
  · cases h
  · split at h
    · rename_i found hfirst
      subst h
      obtain ⟨hrow, hsid, hkey⟩ := readFirst_ok hfirst
      exact ⟨hrow, Or.inl hsid, hkey⟩
    · split at h
      · split at h
        · rename_i found hsiblings
          subst h
          obtain ⟨hrow, hsid, hkey⟩ := readSiblings_ok hsiblings
          exact ⟨hrow, Or.inr hsid, hkey⟩
        · cases h
      · cases h

/-- A canonical key is looked up in the session first, as it is. -/
theorem readResolved_canonical {db : Db} {k : String} {fallback : Bool}
    (hk : CanonicalKey k)
    (h : read rt db.artifacts.rows blobs sid (.key k) version
      = .ok (row, content)) :
    readResolved rt db blobs sid (.key k) version fallback
      = .ok (row, content) := by
  unfold readResolved
  simp only [artifactKeyCandidates_of_canonical hk, readFirst, h]
  rfl

end Keys

/-- After a write, `read_resolved` by the key written returns the row
written exactly when the key has a slash and no space around it. -/
theorem readable_by_own_key_iff {rt : Runtime} {svc : ArtifactService}
    {db : Db} {artifacts' : Table Artifact} {blobs blobs' : Blobs}
    {a : WriteArgs} {id : Uuid} {row : Artifact} {fallback : Bool}
    (hloads : ∀ v, a.mime = "application/json" → a.content = .value v →
      LoadsBack rt v)
    (h : write rt svc db.artifacts blobs a id
      = .ok (row, artifacts', blobs')) :
    (∃ content, readResolved rt { db with artifacts := artifacts' } blobs'
        a.sessionId (.key a.key) none fallback = .ok (row, content))
      ↔ CanonicalKey a.key := by
  obtain ⟨-, -, hkey, -⟩ := write_holds h
  constructor
  · rintro ⟨content, hread⟩
    have hmem := (readResolved_ok hread).2.2
    rw [hkey] at hmem
    exact mem_artifactKeyCandidates.mp hmem
  · intro hcanonical
    by_cases hmime : a.mime = "application/json"
    · exact ⟨_, readResolved_canonical hcanonical
        (read_written_value hmime (fun v => hloads v hmime) h)⟩
    · obtain ⟨data, -, hread⟩ := read_written_bytes hmime h
      exact ⟨_, readResolved_canonical hcanonical hread⟩

/-- An artifact under `plan/a` is read back by its key. -/
theorem stored_plan_readable :
    ∃ row artifacts' blobs',
      write Runtime.sample .default Db.empty.artifacts (fun _ => none)
          (storing "plan/a" "application/json" (.value (.int 1))) 1
        = .ok (row, artifacts', blobs')
      ∧ ∃ content, readResolved Runtime.sample
          { Db.empty with artifacts := artifacts' } blobs' 10
          (.key "plan/a") none true = .ok (row, content) := by
  obtain ⟨row, artifacts', blobs', -, h⟩ := exists_written
    (show (write Runtime.sample .default Db.empty.artifacts
      (fun _ => none)
      (storing "plan/a" "application/json" (.value (.int 1))) 1).map
      (fun stored => stored.1.storage) = .ok .inline by decide +kernel)
  refine ⟨row, artifacts', blobs', h,
    (readable_by_own_key_iff (fun v _ hv => ?_) h).mpr (by decide)⟩
  injection hv with hv
  subst hv
  unfold LoadsBack
  decide +kernel

/-- One under `plan` is not found by its key. -/
theorem bare_key_not_found :
    ((write Runtime.sample .default Db.empty.artifacts (fun _ => none)
        (storing "plan" "application/json" (.value (.int 1))) 1).map
      fun stored => (stored.1.key,
        (readResolved Runtime.sample
          { Db.empty with artifacts := stored.2.1 } stored.2.2 10
          (.key "plan") none true)))
      = .ok ("plan", .error (.notFound "plan")) := by
  decide +kernel

end LegalBot
