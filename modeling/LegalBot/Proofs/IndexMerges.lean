/-
The artifact index of a graph's state, whatever branches update it.

The channel is a dictionary of latest refs (`Lib/LatestWins.lean`): under
a key stands the last ref of the highest version among the current one
and all updates (`lookup_after`). A ref is told by its key and version,
where no two differ in more; then the index depends on which refs there
are and on nothing else, so branches may be merged in any order and in
any batches.
-/
import LegalBot.Artifacts.Index

namespace LegalBot.Index

open LatestWins

-- ============================================================== statements

/-- Every ref is stored under its own key. -/
def OwnKeys (index : ArtifactIndex) : Prop :=
  ∀ key ref, index.lookup key = some ref → ref.key = key

/-- The refs of some updates. -/
def updateRefs (updates : List (Option IndexUpdate)) : List ArtifactRef :=
  updates.flatMap fun u => (u.map IndexUpdate.items).getD []

/-- The refs of a key, the current one first. -/
def refsAt (current : Option ArtifactIndex)
    (updates : List (Option IndexUpdate)) (key : String) :
    List ArtifactRef :=
  ((current.getD []).lookup key).toList
    ++ (updateRefs updates).filter (·.key = key)

/-- What stands under a key: nothing if there are no refs, else the last
of the highest version. -/
def Newest (refs : List ArtifactRef) (found : Option ArtifactRef) :
    Prop :=
  match found with
  | none => refs = []
  | some ref => IsLatest ArtifactRef.version refs ref

/-- Refs of one key and version are equal. -/
def OneOfVersion (refs : List ArtifactRef) : Prop :=
  ∀ a ∈ refs, ∀ b ∈ refs, a.key = b.key → a.version = b.version → a = b

/-- Equal as dicts. -/
def SameIndex (a b : ArtifactIndex) : Prop :=
  ∀ key, a.lookup key = b.lookup key

-- ===================================================================== law

section Law

variable {current : Option ArtifactIndex}
  {us vs : List (Option IndexUpdate)} {key : String} {ref : ArtifactRef}

theorem artifactIndexReducer_eq {u : Option IndexUpdate} :
    artifactIndexReducer current u
      = ((u.map IndexUpdate.items).getD []).foldl upsertRef
        (current.getD []) := by
  cases u <;> rfl

theorem indexAfter_eq : indexAfter current us
    = (updateRefs us).foldl upsertRef (current.getD []) := by
  unfold indexAfter updateRefs
  induction us generalizing current with
  | nil => rfl
  | cons u us ih =>
      rw [List.foldl_cons, ih, List.flatMap_cons, List.foldl_append,
        artifactIndexReducer_eq]
      rfl

/-- What updates leave under a key. -/
theorem lookup_after : (indexAfter current us).lookup key
    = latest ArtifactRef.version (refsAt current us key) := by
  rw [indexAfter_eq]
  exact lookup_puts

theorem updateRefs_append : updateRefs (us ++ vs)
    = updateRefs us ++ updateRefs vs :=
  List.flatMap_append

theorem refsAt_append : refsAt current (us ++ vs) key
    = refsAt current us key ++ (updateRefs vs).filter (·.key = key) := by
  unfold refsAt
  rw [updateRefs_append, List.filter_append, List.append_assoc]

theorem mem_refsAt : ref ∈ refsAt current us key
    ↔ (current.getD []).lookup key = some ref
      ∨ ref ∈ updateRefs us ∧ ref.key = key := by
  unfold refsAt
  rw [List.mem_append, Option.mem_toList, List.mem_filter,
    decide_eq_true_iff]

theorem newest_after :
    Newest (refsAt current us key) ((indexAfter current us).lookup key) :=
  by
  rw [lookup_after]
  cases hlast : latest ArtifactRef.version (refsAt current us key) with
  | none => exact latest_eq_none.mp hlast
  | some ref => exact latest_eq_some.mp hlast

theorem OwnKeys.key_eq (h : OwnKeys (current.getD []))
    (href : ref ∈ refsAt current us key) : ref.key = key := by
  rcases mem_refsAt.mp href with hold | ⟨-, hkey⟩
  · exact h key ref hold
  · exact hkey

theorem OwnKeys.after (h : OwnKeys (current.getD [])) :
    OwnKeys (indexAfter current us) := by
  intro key ref href
  rw [lookup_after] at href
  exact h.key_eq (isLatest_of_latest href).mem

/-- Refs that are told apart by key and version are coherent under each
key. -/
theorem OneOfVersion.coherent (hown : OwnKeys (current.getD []))
    (h : OneOfVersion ((current.getD []).map Prod.snd ++ updateRefs us)) :
    Coherent ArtifactRef.version (refsAt current us key) := by
  have hmem : ∀ ref ∈ refsAt current us key,
      ref ∈ (current.getD []).map Prod.snd ++ updateRefs us := by
    intro ref href
    rcases mem_refsAt.mp href with hold | ⟨hnew, -⟩
    · obtain ⟨l₁, l₂, heq, -⟩ := List.lookup_eq_some_iff.mp hold
      have hentry : (key, ref) ∈ current.getD [] := by
        rw [heq]
        exact List.mem_append_right _ List.mem_cons_self
      exact List.mem_append_left _ (List.mem_map.mpr ⟨_, hentry, rfl⟩)
    · exact List.mem_append_right _ hnew
  intro a ha b hb hversion
  exact h a (hmem a ha) b (hmem b hb)
    ((hown.key_eq ha).trans (hown.key_eq hb).symm) hversion

/-- The reducer is a join: the newest ref of each key, versions that only
grow, no change by an update that is applied again, and one index for all
orders and batches of the same refs. -/
theorem artifact_index_join (hown : OwnKeys (current.getD []))
    (us : List (Option IndexUpdate)) :
    OwnKeys (indexAfter current us)
      ∧ (∀ key, Newest (refsAt current us key)
        ((indexAfter current us).lookup key))
      ∧ (∀ vs key ref, (indexAfter current us).lookup key = some ref →
        ∃ ref', (indexAfter current (us ++ vs)).lookup key = some ref'
          ∧ ref.version ≤ ref'.version)
      ∧ (∀ u, SameIndex (indexAfter current (us ++ [u, u]))
        (indexAfter current (us ++ [u])))
      ∧ ∀ vs, OneOfVersion
          ((current.getD []).map Prod.snd ++ updateRefs us) →
        (∀ ref, ref ∈ updateRefs us ↔ ref ∈ updateRefs vs) →
        SameIndex (indexAfter current us) (indexAfter current vs) := by
  refine ⟨hown.after, fun key => newest_after, ?_, ?_, ?_⟩
  · intro vs key ref href
    rw [lookup_after] at href
    rw [lookup_after, refsAt_append]
    exact latest_mono href
  · intro u key
    have hpair : us ++ [u, u] = us ++ [u] ++ [u] := by simp
    rw [hpair, lookup_after, lookup_after, refsAt_append, refsAt_append]
    exact latest_again
  · intro vs hone hmem key
    rw [lookup_after, lookup_after]
    refine latest_of_coherent (hone.coherent hown) fun ref => ?_
    rw [mem_refsAt, mem_refsAt, hmem]

end Law

/-- A ref of the report. -/
def reportRef (version : Int) : ArtifactRef where
  id := 7
  key := "analysis/report"
  version := version
  kind := "analysis"
  mime := "application/json"
  sizeBytes := 2
  storage := "inline"
  summary := none
  metadata := []

/-- Two branches one after the other, or their refs in one batch. -/
theorem report_branches_join :
    SameIndex
      (indexAfter (some [("analysis/report", reportRef 1)])
        [some (.list [reportRef 3]), none, some (.list [reportRef 2])])
      (indexAfter (some [("analysis/report", reportRef 1)])
        [some (.dict [("2", reportRef 2), ("3", reportRef 3)])]) := by
  have hown : OwnKeys ((some [("analysis/report", reportRef 1)]).getD []) :=
    by
    intro key ref href
    rw [Option.getD_some, List.lookup_cons] at href
    split at href
    · rename_i hkey
      cases href
      exact (beq_iff_eq.mp hkey).symm
    · cases href
  obtain ⟨-, -, -, -, hmerge⟩ := artifact_index_join hown
    [some (.list [reportRef 3]), none, some (.list [reportRef 2])]
  refine hmerge _ ?_ ?_
  · rintro a ha b hb - hversion
    simp [updateRefs, IndexUpdate.items] at ha hb
    rcases ha with rfl | rfl | rfl <;> rcases hb with rfl | rfl | rfl <;>
      first | rfl | exact absurd hversion (by decide)
  · intro ref
    simp [updateRefs, IndexUpdate.items, or_comm]

end LegalBot.Index
