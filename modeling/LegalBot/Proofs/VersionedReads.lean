/-
`read_resolved` with an explicit version.

# Two resolutions

Without a version the first place that has a latest row is read. In
every state that the writes reach this is the first candidate key that
the session holds at all (`resolvesTo_held`). With a version the same
search runs over the places that have this version: where the session's
artifact has none, it goes on to the next candidate key and to the other
sessions of the thread.

# When they agree

`explicit_version_iff`: exactly if that artifact has the version, or no
place of the search has it.
-/
import LegalBot.Proofs.Lookups

namespace LegalBot

-- ============================================================== statements

/-- What a read by key without a version resolves to: the latest row at
the first place that has one, which it returns. -/
structure Resolves (rt : Runtime) (db : Db) (blobs : Blobs) (sid : Uuid)
    (k : String) (row : Artifact) : Prop where
  first : resolvesTo db sid k none = some (row.sessionId, row.key)
  mem : row ∈ db.artifacts.rows
  latest : row.isLatest = true
  read : readResolved rt db blobs sid (.key k) none true
    = (resolvePayload rt blobs row).map fun content => (row, content)

/-- The read of a version returns this version of the artifact that the
read without one resolves to, or reports not-found. -/
def InItsHistory (rt : Runtime) (db : Db) (blobs : Blobs) (sid : Uuid)
    (k : String) (v : Nat) : Prop :=
  ∃ current, Resolves rt db blobs sid k current
    ∧ ((∃ e, readResolved rt db blobs sid (.key k) (some v) true = .error e
          ∧ e.isNotFound = true)
      ∨ ∃ row ∈ db.artifacts.rows, row.sessionId = current.sessionId
          ∧ row.key = current.key ∧ row.version = v
          ∧ readResolved rt db blobs sid (.key k) (some v) true
            = (resolvePayload rt blobs row).map fun content =>
              (row, content))

/-- The first candidate key that the session holds has the version, or
nothing that the search goes through has it. -/
def VersionHeld (db : Db) (sid : Uuid) (k : String) (v : Nat) : Prop :=
  (∃ key, (artifactKeyCandidates k).find?
        (holdsKey db.artifacts.rows sid) = some key
      ∧ hasVersion db.artifacts.rows (some v) (sid, key) = true)
    ∨ ∀ c ∈ lookups db sid k,
      hasVersion db.artifacts.rows (some v) c = false

-- ============================================================ resolutions

section Resolutions

variable {rt : Runtime} {db : Db} {blobs : Blobs} {cap : Nat} {sid : Uuid}
  {k : String} {v : Nat}

/-- A read that resolves to a place answers with a row of the place. -/
theorem readResolved_of_resolvesTo (rt : Runtime) (blobs : Blobs)
    (hchains : ∀ sid key, VersionsChained cap db.artifacts.rows sid key)
    {version : Option Nat} {c : Uuid × String}
    (h : resolvesTo db sid k version = some c) :
    ∃ row ∈ db.artifacts.rows, (row.sessionId, row.key) = c
      ∧ versionMatches version row = true
      ∧ readResolved rt db blobs sid (.key k) version true
        = (resolvePayload rt blobs row).map fun content =>
          (row, content) := by
  obtain ⟨row, hone⟩ := filter_one (hchains c.1 c.2) (List.find?_some h)
  have hmem : row ∈ db.artifacts.rows.filter
      (readMatches c.1 (.key c.2) version) := by
    rw [hone]
    exact List.mem_singleton_self _
  obtain ⟨hrow, hmatch⟩ := List.mem_filter.mp hmem
  obtain ⟨hsid, hkey, hversion⟩ := of_decide_eq_true hmatch
  refine ⟨row, hrow, Prod.ext hsid hkey, hversion, ?_⟩
  rw [readResolved_eq, h]
  exact read_one hone

/-- Without a version the read resolves to the first candidate key that
the session holds. -/
theorem resolvesTo_held
    (hchains : ∀ sid key, VersionsChained cap db.artifacts.rows sid key)
    {key : String} (h : (artifactKeyCandidates k).find?
      (holdsKey db.artifacts.rows sid) = some key) :
    resolvesTo db sid k none = some (sid, key) := by
  have hlatest : hasVersion db.artifacts.rows none
      ∘ (fun key => (sid, key)) = holdsKey db.artifacts.rows sid :=
    funext fun key => hasVersion_latest (hchains sid key)
  unfold resolvesTo lookups
  rw [placesOf_cons, List.find?_append, List.find?_map, hlatest, h]
  rfl

/-- No candidate key before that one is held in any version. -/
theorem resolvesTo_of_held {key : String}
    (h : (artifactKeyCandidates k).find?
      (holdsKey db.artifacts.rows sid) = some key)
    (hhas : hasVersion db.artifacts.rows (some v) (sid, key) = true) :
    resolvesTo db sid k (some v) = some (sid, key) := by
  obtain ⟨-, before, after, hcandidates, hbefore⟩ :=
    List.find?_eq_some_iff_append.mp h
  have hskip : ∀ key' ∈ before,
      hasVersion db.artifacts.rows (some v) (sid, key') = false := by
    intro key' hkey'
    refine List.any_eq_false.mpr fun r hr hmatch => ?_
    obtain ⟨hsid, hkey, -⟩ := of_decide_eq_true hmatch
    have hnot := hbefore key' hkey'
    rw [Bool.not_eq_true', holdsKey, List.any_eq_false] at hnot
    exact hnot r hr (decide_eq_true ⟨hsid, hkey⟩)
  unfold resolvesTo lookups
  rw [placesOf_cons, hcandidates, List.map_append, List.map_cons,
    List.append_assoc, List.find?_append,
    List.find?_eq_none.mpr (by simpa using hskip)]
  simp [hhas]

/-- Not-found means that no place of the search has the version. -/
theorem none_of_notFound
    (hchains : ∀ sid key, VersionsChained cap db.artifacts.rows sid key)
    (h : ∃ e, readResolved rt db blobs sid (.key k) (some v) true = .error e
      ∧ e.isNotFound = true) :
    ∀ c ∈ lookups db sid k,
      hasVersion db.artifacts.rows (some v) c = false := by
  obtain ⟨e, hread, he⟩ := h
  cases hresolves : resolvesTo db sid k (some v) with
  | none =>
      intro c hc
      exact Bool.eq_false_iff.mpr (List.find?_eq_none.mp hresolves c hc)
  | some c =>
      obtain ⟨row, -, -, -, hrow⟩ := readResolved_of_resolvesTo rt blobs
        hchains hresolves
      rw [hrow] at hread
      cases hpayload : resolvePayload rt blobs row with
      | ok content =>
          rw [hpayload] at hread
          cases hread
      | error e' =>
          rw [hpayload] at hread
          injection hread with hread
          rw [← hread, resolvePayload_error hpayload] at he
          cases he

/-- The read without a version in these states. -/
theorem resolves_held (rt : Runtime) (blobs : Blobs)
    (hchains : ∀ sid key, VersionsChained cap db.artifacts.rows sid key)
    {key : String} (h : (artifactKeyCandidates k).find?
      (holdsKey db.artifacts.rows sid) = some key) :
    ∃ current, Resolves rt db blobs sid k current
      ∧ current.sessionId = sid ∧ current.key = key := by
  have hresolves := resolvesTo_held hchains h
  obtain ⟨current, hmem, hplace, hlatest, hread⟩ :=
    readResolved_of_resolvesTo rt blobs hchains hresolves
  obtain ⟨hsid, hkey⟩ := Prod.mk.inj hplace
  exact ⟨current, ⟨hresolves.trans (congrArg some hplace.symm), hmem,
    hlatest, hread⟩, hsid, hkey⟩

end Resolutions

-- ===================================================================== law

/-- In a state that the writes of any number of transactions reach, for a
session that holds some candidate of the key: the read of version `v`
stays in the history that the read without a version shows exactly when
that artifact has the version or nothing the search goes through has. -/
theorem explicit_version_iff {n : Nat} {rt : Runtime}
    {svc : ArtifactService} {s : ArtifactState n} {db : Db} {sid : Uuid}
    {k : String} (v : Nat)
    (hreached : ArtifactReaches rt svc Lts.Always s)
    (hrows : db.artifacts.rows = s.committed)
    (hholds : ∃ key ∈ artifactKeyCandidates k,
      holdsKey db.artifacts.rows sid key = true) :
    InItsHistory rt db s.blobs sid k v ↔ VersionHeld db sid k v := by
  have hchains : ∀ sid key,
      VersionsChained svc.versionCap db.artifacts.rows sid key := by
    rw [hrows]
    exact (versions_chained hreached).1
  obtain ⟨key, hfirst⟩ := Option.isSome_iff_exists.mp
    (List.find?_isSome.mpr hholds)
  constructor
  · rintro ⟨current, hcurrent, hread⟩
    have hplace := hcurrent.first.symm.trans (resolvesTo_held hchains hfirst)
    obtain ⟨hsid, hkey⟩ := Prod.mk.inj (Option.some.inj hplace)
    rcases hread with hnone | ⟨row, hrow, hsid', hkey', hversion, -⟩
    · exact Or.inr (none_of_notFound hchains hnone)
    · exact Or.inl ⟨key, hfirst, List.any_eq_true.mpr ⟨row, hrow,
        decide_eq_true ⟨hsid'.trans hsid, hkey'.trans hkey,
          decide_eq_true hversion⟩⟩⟩
  · intro hheld
    obtain ⟨current, hcurrent, hsid, hkey⟩ :=
      resolves_held rt s.blobs hchains hfirst
    refine ⟨current, hcurrent, ?_⟩
    rcases hheld with ⟨key', hfirst', hhas⟩ | hnowhere
    · obtain rfl := Option.some.inj (hfirst.symm.trans hfirst')
      obtain ⟨row, hrow, hplace, hversion, hread⟩ :=
        readResolved_of_resolvesTo rt s.blobs hchains
          (resolvesTo_of_held hfirst hhas)
      obtain ⟨hsid', hkey'⟩ := Prod.mk.inj hplace
      exact Or.inr ⟨row, hrow, hsid'.trans hsid.symm,
        hkey'.trans hkey.symm, of_decide_eq_true hversion, hread⟩
    · have hnone : resolvesTo db sid k (some v) = none :=
        List.find?_eq_none.mpr fun c hc => by simp [hnowhere c hc]
      refine Or.inl ⟨.notFound k, ?_, rfl⟩
      rw [readResolved_eq, hnone]

-- =============================================================== scenarios

/-- Write `1` under a key of session 10. -/
def writeUnder (key : String) : WriteArgs :=
  { writeOne with key := key }

/-- One transaction: a write under each key, then the commit. -/
def filedUnder : List (ArtifactAction 1) :=
  [.call 0 (.write (writeUnder "extracted_data/nda.docx")),
    .statement 0 0, .statement 0 1, .statement 0 0, .statement 0 0,
    .call 0 (.write (writeUnder "extracted_text/nda.docx")),
    .statement 0 0, .statement 0 2, .statement 0 0, .statement 0 0,
    .call 0 (.write (writeUnder "extracted_text/nda.docx")),
    .statement 0 0, .statement 0 3, .statement 0 0, .statement 0 0,
    .statement 0 0, .commit 0]

theorem filedUnder_runs :
    (Lts.run (ArtifactState.step Runtime.sample ArtifactService.default)
      (ArtifactState.init 1) filedUnder).isSome = true := by
  decide +kernel

/-- The state they leave. -/
def filedState : ArtifactState 1 :=
  (Lts.run (ArtifactState.step Runtime.sample ArtifactService.default)
    (ArtifactState.init 1) filedUnder).get filedUnder_runs

theorem filedState_reached :
    ArtifactReaches Runtime.sample ArtifactService.default Lts.Always
      filedState :=
  Lts.reachable_of_run .init (Option.some_get _).symm

/-- Version 1 of the data and versions 1 and 2 of the text. -/
def filedDb : Db :=
  { Db.empty with
    artifacts := ⟨filedState.committed, by decide +kernel⟩ }

/-- Version 1 is one of the data, which the name alone stands for. -/
theorem filed_data_version :
    InItsHistory Runtime.sample filedDb filedState.blobs 10 "nda.docx" 1 :=
  (explicit_version_iff 1 filedState_reached rfl
    ⟨"extracted_data/nda.docx", by decide +kernel, by decide +kernel⟩).mpr
    (Or.inl ⟨"extracted_data/nda.docx", by decide +kernel,
      by decide +kernel⟩)

/-- Version 2 of the name is read from the text. -/
theorem other_key_read : ¬ ∀ (n : Nat) (rt : Runtime)
    (svc : ArtifactService) (s : ArtifactState n) (db : Db) (sid : Uuid)
    (k : String) (v : Nat), ArtifactReaches rt svc Lts.Always s →
    db.artifacts.rows = s.committed →
    (∃ key ∈ artifactKeyCandidates k,
      holdsKey db.artifacts.rows sid key = true) →
    InItsHistory rt db s.blobs sid k v := by
  intro h
  obtain ⟨current, hcurrent, hread⟩ := h 1 Runtime.sample
    ArtifactService.default filedState filedDb 10 "nda.docx" 2
    filedState_reached rfl
    ⟨"extracted_data/nda.docx", by decide +kernel, by decide +kernel⟩
  have hplace : resolvesTo filedDb 10 "nda.docx" none
      = some (10, "extracted_data/nda.docx") := by
    decide +kernel
  have hkey := (Prod.mk.inj
    (Option.some.inj (hcurrent.first.symm.trans hplace))).2
  have hother : (readResolved Runtime.sample filedDb filedState.blobs 10
      (.key "nda.docx") (some 2) true).map (fun found => found.1.key)
      = .ok "extracted_text/nda.docx" := by
    decide +kernel
  rcases hread with ⟨e, he, -⟩ | ⟨row, -, -, hrow, -, hread⟩
  · rw [he] at hother
    cases hother
  · rw [hread] at hother
    cases hpayload : resolvePayload Runtime.sample filedState.blobs row with
    | error e =>
        rw [hpayload] at hother
        cases hother
    | ok content =>
        rw [hpayload] at hother
        have htext : row.key = "extracted_text/nda.docx" :=
          Except.ok.inj hother
        rw [hrow, hkey] at htext
        exact absurd htext (by decide)

end LegalBot
