/-
Which bundles of artifacts a run can project.

# Shapes

Both builders look at most values through an `isinstance` check or make a
text of them, and do not raise there. Four loops do neither: over
`entities` and `attachments`, and over the items of `provided_fields` and
`field_values`. A truthy value of another kind in one of these four
places raises, for whatever else there is in the bundle (`WellShaped`).

# Runs

`index_run` calls both builders before it writes anything, so a run whose
bundle is not well shaped projects nothing at all (`runProjection_shaped`).
-/
import LegalBot.Memory.Parts

namespace LegalBot.Memory

open Programs

/-- What the loops of both builders go through is of a kind they can go
through. -/
structure WellShaped (rt : Runtime) (artifacts : Attributes) : Prop where
  projectable : Projectable rt artifacts
  attachments : ∀ extracted,
    dictArtifact artifacts "analysis/extracted" = some extracted →
      Iterable (getOr extracted "attachments" (.arr []))

section Shapes

variable {rt : Runtime} {tx : Texts} {artifacts : Attributes}
  {sessionId : Uuid}

theorem sourceKeys_succeeds {extracted : Option Attributes} :
    Succeeds (sourceArtifactKeys rt artifacts extracted)
      ↔ ∀ content, extracted = some content →
        Iterable (getOr content "attachments" (.arr [])) := by
  unfold sourceArtifactKeys
  cases extracted with
  | none => exact ⟨fun _ _ h => (by cases h), fun _ => ⟨_, rfl⟩⟩
  | some content =>
      simp only [Option.some.injEq, forall_eq', ← iterate_succeeds]
      constructor
      · intro h
        obtain ⟨atts, hatts, -⟩ := succeeds_bind.mp h
        exact ⟨atts, hatts⟩
      · rintro ⟨atts, hatts⟩
        rw [hatts]
        exact ⟨_, rfl⟩

/-- Only the loop over the attachments can raise. -/
theorem buildAnchor_succeeds :
    Succeeds (buildArtifactAnchorProjection rt tx artifacts sessionId)
      ↔ ∀ extracted,
        dictArtifact artifacts "analysis/extracted" = some extracted →
          Iterable (getOr extracted "attachments" (.arr [])) := by
  unfold buildArtifactAnchorProjection
  constructor
  · intro h
    obtain ⟨keys, hkeys, -⟩ := succeeds_bind.mp h
    exact sourceKeys_succeeds.mp ⟨keys, hkeys⟩
  · intro h
    obtain ⟨keys, hkeys⟩ := sourceKeys_succeeds.mpr h
    exact succeeds_bind.mpr ⟨keys, hkeys, succeeds_ok⟩

/-- A run that projects has a well shaped bundle. -/
theorem runProjection_shaped {env : GraphEnv} {src : Sources}
    {reply : Option (List LlmExtractedEntity)}
    (hload : loadSessionArtifacts env src sessionId = .ok artifacts)
    (h : Succeeds (runProjection env src sessionId reply)) :
    WellShaped env.rt artifacts := by
  unfold runProjection at h
  rw [hload, ok_bind] at h
  obtain ⟨base, hbase, h⟩ := succeeds_bind.mp h
  obtain ⟨anchor, hanchor, -⟩ := succeeds_bind.mp h
  exact ⟨buildProjection_succeeds.mp ⟨base, hbase⟩,
    buildAnchor_succeeds.mp ⟨anchor, hanchor⟩⟩

end Shapes

/-- Both builders return exactly on the well shaped bundles; merging what
they return has nothing to raise. -/
theorem projections_return_iff {rt : Runtime} {tx : Texts}
    {artifacts : Attributes} {sessionId : Uuid} :
    (∃ base anchor p,
      buildProjectionFromArtifacts rt tx artifacts = .ok base
        ∧ buildArtifactAnchorProjection rt tx artifacts sessionId
          = .ok anchor
        ∧ mergeProjections base anchor = p)
      ↔ WellShaped rt artifacts := by
  constructor
  · rintro ⟨base, anchor, p, hbase, hanchor, -⟩
    exact ⟨buildProjection_succeeds.mp ⟨base, hbase⟩,
      buildAnchor_succeeds.mp ⟨anchor, hanchor⟩⟩
  · intro h
    obtain ⟨base, hbase⟩ := buildProjection_succeeds.mpr h.projectable
    obtain ⟨anchor, hanchor⟩ := buildAnchor_succeeds.mpr h.attachments
    exact ⟨base, anchor, _, hbase, hanchor, rfl⟩

/-- A number of entities in one file, and a name in another. -/
def oneMalformed : Attributes :=
  [("extracted_data/a.pdf", .obj [("entities", .int 5)]),
    ("extracted_data/b.pdf", .obj [("entities", .arr [.str "Acme"])])]

theorem one_malformed_raises :
    ¬ ∀ artifacts sessionId, ∃ base anchor p,
      buildProjectionFromArtifacts .sample .sample artifacts = .ok base
        ∧ buildArtifactAnchorProjection .sample .sample artifacts sessionId
          = .ok anchor
        ∧ mergeProjections base anchor = p := by
  intro h
  obtain ⟨base, anchor, p, hbase, -⟩ := h oneMalformed 1
  have hraised : buildProjectionFromArtifacts .sample .sample oneMalformed
      = .error .typeError := by decide +kernel
  rw [hraised] at hbase
  cases hbase

end LegalBot.Memory
