/-
The artifact edits of a resolution: all or nothing, and in order.

# One edit

`editedContent` says what an edit makes of a key: its patch merged into
the latest content or replacing it, else its content, else nothing.
`EditApplied` is the step: an edit that asks for something adds one
version with that content to its key and leaves every other key as it
was.

# The request

`EditsApplied` is the run of the steps in list order. A request that
raises has no effects; one that answers commits the edits with the rows
of the resolution in one transaction and sends afterwards.
-/
import LegalBot.Interrupts.Request
import LegalBot.Proofs.ArtifactVersions
import LegalBot.Proofs.LoneWrites
import LegalBot.Proofs.ValidatedInput
import Mathlib.Algebra.GroupWithZero.Nat

namespace LegalBot

open Relational (HasKey Table)
open VersionChain (Versioned rowsOf)

-- ============================================================== statements

/-- The latest content of a key; `{}` before the first version. -/
def latestContent (rt : Runtime) (store : Table Artifact × Blobs)
    (sid : Uuid) (key : String) : Content :=
  match read rt store.1.rows store.2 sid (.key key) none with
  | .ok (_, content) => content
  | .error _ => .value (.obj [])

/-- What an edit makes of its key. -/
def editedContent (rt : Runtime) (store : Table Artifact × Blobs)
    (sid : Uuid) (e : ArtifactEdit) : Option Content :=
  match e.patch, e.content with
  | some patch, _ =>
      if e.merge = "json_merge_patch" then
        some (mergeContent (latestContent rt store sid e.key)
          (.value (.obj patch)))
      else some (.value (.obj patch))
  | none, .null => none
  | none, content => some (.value content)

/-- `store'` is `store` after one edit. -/
inductive EditApplied (rt : Runtime) (sid : Uuid) (e : ArtifactEdit)
    (store store' : Table Artifact × Blobs) : Prop where
  | nothing : editedContent rt store sid e = none → store' = store →
      EditApplied rt sid e store store'
  | added (content : Content) (row : Artifact) :
      editedContent rt store sid e = some content →
      AddsVersion sid e.key store.1.rows row store'.1.rows →
      Holds rt store'.2 row content → EditApplied rt sid e store store'

/-- `store'` is `store` after the edits of a list, in order. -/
inductive EditsApplied (rt : Runtime) (sid : Uuid) :
    List ArtifactEdit → Table Artifact × Blobs →
    Table Artifact × Blobs → Prop where
  | nil (store : Table Artifact × Blobs) : EditsApplied rt sid [] store store
  | cons {e : ArtifactEdit} {rest : List ArtifactEdit}
      {store store₁ store' : Table Artifact × Blobs} :
      EditApplied rt sid e store store₁ →
      EditsApplied rt sid rest store₁ store' →
      EditsApplied rt sid (e :: rest) store store'

/-- The answer of an information request that is not skipped; an empty
one has no fields to merge. -/
def InterruptResolution.answered :
    InterruptResolution → Option (List (String × Json))
  | .info (some answer) false _ _ =>
      if answer.isEmpty then none else some answer
  | _ => none

/-- `store'` is `store` with one version of the report added: what was
read with the answer folded in. -/
def ReportMerged (rt : Runtime)
    (dictOf : Json → Option (List (String × Json))) (sid : Uuid)
    (answer : List (String × Json))
    (store store' : Table Artifact × Blobs) : Prop :=
  ∃ report row,
    mergedReport dictOf (reportContent rt store.1.rows store.2 sid) answer
      = some report
    ∧ AddsVersion sid "analysis/report" store.1.rows row store'.1.rows
    ∧ Holds rt store'.2 row (.value (.obj report))
    ∧ row.mime = "application/json"

/-- What follows the edits: the answer of an answered information request
is merged into the report, and nothing is written otherwise. -/
def AnswerFollows (rt : Runtime)
    (dictOf : Json → Option (List (String × Json))) (sid : Uuid)
    (resolution : InterruptResolution)
    (store store' : Table Artifact × Blobs) : Prop :=
  match resolution.answered with
  | some answer => ReportMerged rt dictOf sid answer store store'
  | none => store' = store

/-- `update` can replace the report: it can be read, or there is none. -/
def ReportReadable (rt : Runtime) (store : Table Artifact × Blobs)
    (sid : Uuid) : Prop :=
  match read rt store.1.rows store.2 sid (.key "analysis/report") none with
  | .ok _ => True
  | .error e => e.isNotFound = true

/-- The merge of an answer writes: the report can be replaced, what the
answer is folded into are dicts, and there is room for a version. -/
structure MergeWrites (rt : Runtime) (svc : ArtifactService)
    (dictOf : Json → Option (List (String × Json))) (sid : Uuid)
    (answer : List (String × Json)) (store : Table Artifact × Blobs) :
    Prop where
  readable : ReportReadable rt store sid
  dicts : mergedReport dictOf
    (reportContent rt store.1.rows store.2 sid) answer ≠ none
  room : nextVersion store.1.rows sid "analysis/report" ≤ svc.versionCap

/-- The message that resumes the run of an interrupt. -/
def resumptionOf (current : InterruptRequest) (value : Json) :
    List Message :=
  current.runId.toList.map fun r => .resumeRun r value (some current.id)

/-- A request has committed the edits of its body in order, followed by
its answer and nothing else, and enqueued the resumption afterwards. -/
def FoldCommitted (rt : Runtime)
    (dictOf : Json → Option (List (String × Json))) (db : Db)
    (blobs : Blobs) (sid : Uuid) (resolution : InterruptResolution)
    (effects : List RequestEffect) : Prop :=
  ∃ current value store after blobs',
    currentForSession db.interrupts sid = some current
    ∧ effects = .commit after blobs'
      :: (resumptionOf current value).map RequestEffect.send
    ∧ EditsApplied rt sid resolution.artifactEdits (db.artifacts, blobs)
      store
    ∧ AnswerFollows rt dictOf sid resolution store
      (after.artifacts, blobs')

/-- The answer of a body is merged exactly when the body is not
skipped. -/
def MergedUnlessSkipped (rt : Runtime) (svc : ArtifactService)
    (dictOf : Json → Option (List (String × Json))) (sid : Uuid)
    (resolution : InterruptResolution)
    (store : Table Artifact × Blobs) : Prop :=
  ∀ answer, resolution.mergedAnswer = some answer →
    (MergeWrites rt svc dictOf sid answer store
      ↔ resolution.skipped = false)

-- ================================================================= one edit

section Edit

variable {rt : Runtime} {svc : ArtifactService}
  {store store' : Table Artifact × Blobs} {u : UpdateArgs} {id sid : Uuid}
  {runId : Option Uuid} {createdBy : String} {e : ArtifactEdit}

/-- The content an update writes. -/
theorem updateFrom_content {a : WriteArgs} {row : Option Artifact}
    {previous : Content}
    (h : updateFrom rt u (read rt store.1.rows store.2 u.sessionId
      (.key u.key) none) = .ok (a, row, previous)) :
    (u.merge = .replace → a.content = u.patchOrContent)
      ∧ (u.merge = .jsonMergePatch → a.content = mergeContent
        (latestContent rt store u.sessionId u.key) u.patchOrContent) := by
  unfold updateFrom at h
  unfold latestContent
  constructor
  · intro hmode
    simp only [hmode] at h
    split at h
    · injection h with h
      rw [← (Prod.mk.inj h).1]
      rfl
    · split at h
      · injection h with h
        rw [← (Prod.mk.inj h).1]
        rfl
      · cases h
  · intro hmode
    simp only [hmode] at h
    cases hread : read rt store.1.rows store.2 u.sessionId (.key u.key)
        none with
    | ok found =>
        rw [hread] at h
        dsimp only at h ⊢
        split at h
        · cases h
        · injection h with h
          rw [← (Prod.mk.inj h).1]
          rfl
    | error e =>
        rw [hread] at h
        dsimp only at h ⊢
        split at h
        · split at h
          · cases h
          · injection h with h
            rw [← (Prod.mk.inj h).1]
            rfl
        · cases h

/-- An update that returns adds its content to its key. -/
theorem update_adds {content : Content}
    (hreplace : u.merge = .replace → content = u.patchOrContent)
    (hmerge : u.merge = .jsonMergePatch → content = mergeContent
      (latestContent rt store u.sessionId u.key) u.patchOrContent)
    (hmode : u.merge ≠ .jsonPatch)
    (h : svc.update rt store.1 store.2 u id = .ok store') :
    ∃ row, AddsVersion u.sessionId u.key store.1.rows row store'.1.rows
      ∧ Holds rt store'.2 row content ∧ row.mime = u.mime := by
  obtain ⟨a, from', previous, row, hmade, hwrite⟩ := update_ok h
  obtain ⟨written, rfl⟩ := updateFrom_args hmade
  obtain ⟨hr, hm⟩ := updateFrom_content hmade
  have hcontent : content = written := by
    cases hmode' : u.merge with
    | replace => exact (hreplace hmode').trans (hr hmode').symm
    | jsonMergePatch => exact (hmerge hmode').trans (hm hmode').symm
    | jsonPatch => exact absurd hmode' hmode
  rw [hcontent]
  refine ⟨row, write_adds hwrite, (write_holds hwrite).1, ?_⟩
  obtain ⟨payload, prior, -, -, rfl, -⟩ := write_ok hwrite
  rfl

/-- The update an edit asks for. -/
def ArtifactEdit.asks (e : ArtifactEdit) (sessionId : Uuid)
    (runId : Option Uuid) (createdBy : String) (content : Json)
    (mode : MergeMode) : UpdateArgs :=
  { sessionId := sessionId, key := e.key
    patchOrContent := .value content, merge := mode, runId := runId
    producer := "user", kind := none, mime := e.mimeOrJson
    metadata := e.metadata, createdBy := some createdBy }

/-- The three kinds of edits. -/
theorem updateArgs_cases (rt : Runtime)
    (store : Table Artifact × Blobs) :
    (∃ patch, e.updateArgs sid runId createdBy
          = some (e.asks sid runId createdBy (.obj patch) e.mode)
        ∧ editedContent rt store sid e
          = if e.merge = "json_merge_patch" then
              some (mergeContent (latestContent rt store sid e.key)
                (.value (.obj patch)))
            else some (.value (.obj patch)))
      ∨ (∃ content, e.updateArgs sid runId createdBy
          = some (e.asks sid runId createdBy content .replace)
        ∧ editedContent rt store sid e = some (.value content))
      ∨ (e.updateArgs sid runId createdBy = none
        ∧ editedContent rt store sid e = none) := by
  unfold ArtifactEdit.updateArgs editedContent
  cases e.patch with
  | some patch => exact Or.inl ⟨patch, rfl, rfl⟩
  | none =>
      cases hcontent : e.content with
      | null => exact Or.inr (Or.inr ⟨rfl, rfl⟩)
      | _ => exact Or.inr (Or.inl ⟨_, rfl, rfl⟩)

/-- An edit that returns has been applied. -/
theorem applyArtifactEdit_applied
    (h : applyArtifactEdit rt svc sid runId createdBy id e store
      = .ok store') : EditApplied rt sid e store store' := by
  unfold applyArtifactEdit at h
  rcases @updateArgs_cases sid runId createdBy e rt store with
    ⟨patch, hu, hedited⟩ | ⟨content, hu, hedited⟩ | ⟨hu, hedited⟩
  · -- a patch, in its own mode
    rw [hu] at h
    by_cases hmode : e.merge = "json_merge_patch"
    · have hm : e.mode = .jsonMergePatch := if_pos hmode
      rw [if_pos hmode] at hedited
      rw [hm] at h
      obtain ⟨row, hadds, hholds, -⟩ := update_adds (fun h => by cases h)
        (fun _ => rfl) (fun h => by cases h) h
      exact .added _ row hedited hadds hholds
    · have hm : e.mode = .replace := if_neg hmode
      rw [if_neg hmode] at hedited
      rw [hm] at h
      obtain ⟨row, hadds, hholds, -⟩ := update_adds (fun _ => rfl)
        (fun h => by cases h) (fun h => by cases h) h
      exact .added _ row hedited hadds hholds
  · -- a content replaces
    rw [hu] at h
    obtain ⟨row, hadds, hholds, -⟩ := update_adds (fun _ => rfl)
      (fun h => by cases h) (fun h => by cases h) h
    exact .added _ row hedited hadds hholds
  · rw [hu] at h
    injection h with h
    exact .nothing hedited h.symm

/-- It keeps the chains and uses one uuid4 up. -/
theorem applyArtifactEdit_chains {draw : Nat → Uuid} {n : Nat}
    (hinj : Function.Injective draw) (hc : Chains store.1)
    (hn : Undrawn draw n store.1)
    (h : applyArtifactEdit rt svc sid runId createdBy (draw n) e store
      = .ok store') : Chains store'.1 ∧ Undrawn draw (n + 1) store'.1 := by
  unfold applyArtifactEdit at h
  cases hu : e.updateArgs sid runId createdBy with
  | none =>
      rw [hu] at h
      injection h with h
      subst h
      exact ⟨hc, fun r hr i hi => hn r hr i (by omega)⟩
  | some u =>
      rw [hu] at h
      exact ⟨update_chains hc h, undrawn_update hinj hc hn h⟩

end Edit

-- ================================================================ the edits

section Edits

variable {rt : Runtime} {svc : ArtifactService}
  {store store' : Table Artifact × Blobs} {sid : Uuid}
  {runId : Option Uuid} {createdBy : String} {draw : Nat → Uuid}
  {e : ArtifactEdit} {edits rest : List ArtifactEdit} {n : Nat}

/-- One edit, then the rest on what it left. -/
theorem applyArtifactEdits_cons :
    applyArtifactEdits rt svc sid runId createdBy draw n (e :: rest) store
      = (applyArtifactEdit rt svc sid runId createdBy (draw n) e store).bind
        (applyArtifactEdits rt svc sid runId createdBy draw (n + 1)
          rest) := by
  obtain ⟨artifacts, blobs⟩ := store
  unfold applyArtifactEdit
  rw [applyArtifactEdits]
  cases e.updateArgs sid runId createdBy with
  | none => rfl
  | some u => rfl

/-- Edits that all return have been applied in order. -/
theorem applyArtifactEdits_applied
    (h : applyArtifactEdits rt svc sid runId createdBy draw n edits store
      = .ok store') : EditsApplied rt sid edits store store' := by
  induction edits generalizing n store with
  | nil =>
      rw [applyArtifactEdits] at h
      injection h with h
      subst h
      exact .nil store
  | cons e rest ih =>
      rw [applyArtifactEdits_cons] at h
      cases hone : applyArtifactEdit rt svc sid runId createdBy (draw n) e
          store with
      | error err =>
          rw [hone] at h
          cases h
      | ok store₁ =>
          rw [hone] at h
          exact .cons (applyArtifactEdit_applied hone) (ih h)

theorem applyArtifactEdits_chains (hinj : Function.Injective draw)
    (hc : Chains store.1) (hn : Undrawn draw n store.1)
    (h : applyArtifactEdits rt svc sid runId createdBy draw n edits store
      = .ok store') :
    Chains store'.1 ∧ Undrawn draw (n + edits.length) store'.1 := by
  induction edits generalizing n store with
  | nil =>
      rw [applyArtifactEdits] at h
      injection h with h
      subst h
      exact ⟨hc, hn⟩
  | cons e rest ih =>
      rw [applyArtifactEdits_cons] at h
      cases hone : applyArtifactEdit rt svc sid runId createdBy (draw n) e
          store with
      | error err =>
          rw [hone] at h
          cases h
      | ok store₁ =>
          rw [hone] at h
          obtain ⟨hc₁, hn₁⟩ := applyArtifactEdit_chains hinj hc hn hone
          obtain ⟨hc', hn'⟩ := ih hc₁ hn₁ h
          refine ⟨hc', ?_⟩
          rwa [List.length_cons, Nat.add_comm rest.length,
            ← Nat.add_assoc]

/-- How many versions an edit adds. -/
def ArtifactEdit.versions (e : ArtifactEdit) : Nat :=
  match e.patch, e.content with
  | none, .null => 0
  | _, _ => 1

theorem AddsVersion.length_rows {key : String} {row : Artifact}
    {rows rows' : List Artifact} (h : AddsVersion sid key rows row rows') :
    rows'.length = rows.length + 1 := by
  simpa using congrArg List.length h.kept

theorem EditApplied.length_rows (h : EditApplied rt sid e store store') :
    store'.1.rows.length = store.1.rows.length + e.versions := by
  have hversions : e.versions
      = if editedContent rt store sid e = none then 0 else 1 := by
    unfold ArtifactEdit.versions editedContent
    cases e.patch with
    | some patch =>
        simp only
        split <;> rfl
    | none => cases e.content <;> rfl
  rw [hversions]
  cases h with
  | nothing hnone hsame => rw [if_pos hnone, hsame, Nat.add_zero]
  | added content row hsome hadds hholds =>
      rw [if_neg (by rw [hsome]; exact Option.some_ne_none content)]
      exact hadds.length_rows

/-- The edits decide how many rows there are. -/
theorem EditsApplied.length_rows (h : EditsApplied rt sid edits store store') :
    store'.1.rows.length
      = store.1.rows.length + (edits.map ArtifactEdit.versions).sum := by
  induction h with
  | nil store => rfl
  | cons hone hrest ih =>
      rw [ih, hone.length_rows, List.map_cons, List.sum_cons]
      omega

end Edits

-- =============================================================== the report

instance (rt : Runtime) (store : Table Artifact × Blobs) (sid : Uuid) :
    Decidable (ReportReadable rt store sid) := by
  unfold ReportReadable
  split
  · exact isTrue trivial
  · infer_instance

instance (rt : Runtime) (svc : ArtifactService)
    (dictOf : Json → Option (List (String × Json))) (sid : Uuid)
    (answer : List (String × Json)) (store : Table Artifact × Blobs) :
    Decidable (MergeWrites rt svc dictOf sid answer store) :=
  decidable_of_iff
    (ReportReadable rt store sid
      ∧ mergedReport dictOf
        (reportContent rt store.1.rows store.2 sid) answer ≠ none
      ∧ nextVersion store.1.rows sid "analysis/report" ≤ svc.versionCap)
    ⟨fun ⟨hr, hd, hv⟩ => ⟨hr, hd, hv⟩,
      fun h => ⟨h.readable, h.dicts, h.room⟩⟩

section Report

variable {rt : Runtime} {svc : ArtifactService}
  {dictOf : Json → Option (List (String × Json))}
  {store store' : Table Artifact × Blobs} {sid id : Uuid}
  {runId : Option Uuid} {answer report : List (String × Json)}

/-- The update of a merge. -/
def reportUpdate (sid : Uuid) (runId : Option Uuid)
    (report : List (String × Json)) : UpdateArgs :=
  { sessionId := sid, key := "analysis/report"
    patchOrContent := .value (.obj report), merge := .replace
    runId := runId, producer := "interrupt"
    kind := some "analysis", mime := "application/json"
    metadata := none, createdBy := none }

/-- It returns exactly when the report can be replaced and has room. -/
theorem reportUpdate_ok_iff (hc : Chains store.1)
    (hfresh : ∀ r ∈ store.1.rows, r.id ≠ id) :
    (∃ store', svc.update rt store.1 store.2
        (reportUpdate sid runId report) id = .ok store')
      ↔ ReportReadable rt store sid
        ∧ nextVersion store.1.rows sid "analysis/report"
          ≤ svc.versionCap := by
  constructor
  · intro ⟨store', h⟩
    obtain ⟨a, from', previous, row, hmade, hwrite⟩ := update_ok h
    obtain ⟨written, rfl⟩ := updateFrom_args hmade
    obtain ⟨_, _, _, _, _, _, _, _, hcap⟩ := write_ok hwrite
    refine ⟨?_, hcap⟩
    unfold ReportReadable
    unfold updateFrom at hmade
    simp only [reportUpdate] at hmade
    split at hmade
    · rename_i hread
      rw [hread]
      trivial
    · rename_i e hread
      rw [hread]
      split at hmade
      · assumption
      · cases hmade
  · intro ⟨hreadable, hcap⟩
    have hmade : ∃ from' previous, updateFrom rt
        (reportUpdate sid runId report)
        (read rt store.1.rows store.2 sid (.key "analysis/report") none)
        = .ok ((reportUpdate sid runId report).writeArgs from'
          (.value (.obj report)), from', previous) := by
      unfold ReportReadable at hreadable
      unfold updateFrom
      simp only [reportUpdate]
      split at hreadable
      · rename_i found hread
        rw [hread]
        exact ⟨_, _, rfl⟩
      · rename_i e hread
        rw [hread]
        simp only [hreadable, if_true]
        exact ⟨_, _, rfl⟩
    obtain ⟨from', previous, hmade⟩ := hmade
    obtain ⟨row, artifacts', blobs', hwrite⟩ :=
      @write_succeeds rt svc store.1 store.2
        ((reportUpdate sid runId report).writeArgs from'
          (.value (.obj report))) id hc hfresh _ rfl hcap
    refine ⟨(artifacts', blobs'), ?_⟩
    unfold ArtifactService.update
    have hread : read rt store.1.rows store.2
        (reportUpdate sid runId report).sessionId
        (.key (reportUpdate sid runId report).key) none
        = read rt store.1.rows store.2 sid (.key "analysis/report") none :=
      rfl
    rw [hread, hmade]
    simp only [bind, Except.bind, hwrite, pure, Except.pure]

/-- The merge, once the merged report is known. -/
theorem mergeContractProvidedFields_report (hne : answer ≠ [])
    (hmerged : mergedReport dictOf
      (reportContent rt store.1.rows store.2 sid) answer = some report) :
    mergeContractProvidedFields rt svc dictOf sid runId answer id store
      = match svc.update rt store.1 store.2
          (reportUpdate sid runId report) id with
        | .ok store' => store'
        | .error _ => store := by
  unfold mergeContractProvidedFields
  rw [if_neg (by simpa using hne), hmerged]
  rfl

/-- The merge of an answer either adds the merged report or does
nothing. -/
theorem mergeContractProvidedFields_cases (hc : Chains store.1)
    (hfresh : ∀ r ∈ store.1.rows, r.id ≠ id) (hne : answer ≠ []) :
    (MergeWrites rt svc dictOf sid answer store
        ∧ ReportMerged rt dictOf sid answer store
          (mergeContractProvidedFields rt svc dictOf sid runId answer id
            store))
      ∨ (¬ MergeWrites rt svc dictOf sid answer store
        ∧ mergeContractProvidedFields rt svc dictOf sid runId answer id
          store = store) := by
  cases hmerged : mergedReport dictOf
      (reportContent rt store.1.rows store.2 sid) answer with
  | none =>
      refine Or.inr ⟨fun h => h.dicts hmerged, ?_⟩
      unfold mergeContractProvidedFields
      rw [if_neg (by simpa using hne), hmerged]
  | some report =>
      have hiff := @reportUpdate_ok_iff rt svc store sid id runId report hc
        hfresh
      rw [mergeContractProvidedFields_report hne hmerged]
      cases hupdate : svc.update rt store.1 store.2
          (reportUpdate sid runId report) id with
      | ok store' =>
          obtain ⟨hreadable, hcap⟩ := hiff.mp ⟨store', hupdate⟩
          obtain ⟨row, hadds, hholds, hmime⟩ := update_adds (fun _ => rfl)
            (fun h => by cases h) (fun h => by cases h) hupdate
          exact Or.inl ⟨⟨hreadable, by simp [hmerged], hcap⟩, report, row,
            hmerged, hadds, hholds, hmime⟩
      | error e =>
          refine Or.inr ⟨fun h => ?_, rfl⟩
          obtain ⟨store', hok⟩ := hiff.mpr ⟨h.readable, h.room⟩
          rw [hupdate] at hok
          cases hok

end Report

-- ============================================================= the request

section Request

variable {valid : Json → Json → Bool} {rt : Runtime}
  {svc : ArtifactService}
  {dictOf : Json → Option (List (String × Json))} {now : Time} {db : Db}
  {blobs : Blobs} {sid : Uuid} {resolution : InterruptResolution}
  {resolvedBy : Option String} {draw : Nat → Uuid} {interventionId : Uuid}
  {res : Resolution}

/-- An answer that is merged and not skipped is answered. -/
theorem answered_eq (resolution : InterruptResolution) :
    resolution.answered
      = if resolution.skipped = true then none
        else resolution.mergedAnswer := by
  cases resolution with
  | tool => rfl
  | review => rfl
  | info answer skipped reason edits =>
      cases answer with
      | none => cases skipped <;> rfl
      | some answer => cases skipped <;> rfl

theorem mergedAnswer_ne_nil {answer : List (String × Json)}
    (h : resolution.mergedAnswer = some answer) : answer ≠ [] := by
  unfold InterruptResolution.mergedAnswer at h
  split at h
  · split at h
    · cases h
    · rename_i hne
      injection h with h
      subst h
      simpa using hne
  · cases h

/-- What a resolution hands on: the edits in order, then the merge. -/
theorem resolveBody_ok {interrupts : Table InterruptRequest}
    {artifacts : Table Artifact} {out : Resolved}
    (h : resolveBody valid rt svc dictOf interrupts artifacts blobs sid
      resolution resolvedBy draw = .ok out) :
    ∃ store, applyArtifactEdits rt svc sid out.current.runId
        (signedBy resolvedBy) draw 0 resolution.artifactEdits
        (artifacts, blobs) = .ok store
      ∧ currentForSession interrupts sid = some out.current
      ∧ (out.artifacts, out.blobs) = match resolution.mergedAnswer with
        | none => store
        | some answer => mergeContractProvidedFields rt svc dictOf sid
            out.current.runId answer (draw resolution.artifactEdits.length)
            store := by
  unfold resolveBody at h
  split at h
  · cases h
  · rename_i current value hcheck
    simp only at h
    split at h
    · cases h
    · rename_i store hstore
      injection h with h
      subst h
      exact ⟨store, hstore, (checkResolution_ok hcheck).1, rfl⟩

/-- The rows of `resolve` leave the artifacts alone. -/
theorem resolve_artifacts {current : InterruptRequest} {db' : Db}
    (h : resolve db now sid current resolution resolvedBy interventionId
      = some db') : db'.artifacts = db.artifacts := by
  unfold resolve at h
  obtain ⟨interventions, -, rfl⟩ := Option.map_eq_some_iff.mp h
  rfl

/-- A resolution that returns. -/
theorem resolveWhole_ok (h : resolveWhole valid rt svc dictOf now db blobs
      sid resolution resolvedBy draw interventionId = .ok res) :
    ∃ store, applyArtifactEdits rt svc sid res.current.runId
        (signedBy resolvedBy) draw 0 resolution.artifactEdits
        (db.artifacts, blobs) = .ok store
      ∧ currentForSession db.interrupts sid = some res.current
      ∧ (res.db.artifacts, res.blobs) = match resolution.mergedAnswer with
        | none => store
        | some answer => mergeContractProvidedFields rt svc dictOf sid
            res.current.runId answer (draw resolution.artifactEdits.length)
            store := by
  unfold resolveWhole at h
  split at h
  · cases h
  · cases h
  · rename_i out hbody
    split at h
    · cases h
    · rename_i db' hrows
      injection h with h
      subst h
      obtain ⟨store, hstore, hcurrent, hout⟩ := resolveBody_ok hbody
      refine ⟨store, hstore, hcurrent, ?_⟩
      rw [resolve_artifacts hrows]
      exact hout

/-- The effects of a resolution that returns. -/
theorem resolveInterrupt_ok (h : resolveWhole valid rt svc dictOf now db
      blobs sid resolution resolvedBy draw interventionId = .ok res) :
    (resolveInterrupt valid rt svc dictOf now db blobs sid resolution
        resolvedBy draw interventionId).1
      = .commit res.db res.blobs :: (resumptionOf res.current
        res.resumeValue).map RequestEffect.send := by
  unfold resolveInterrupt resumptionOf
  rw [h]
  cases hrun : res.current.runId with
  | none =>
      simp only [hrun]
      rfl
  | some runId =>
      simp only [hrun]
      rfl

/-- A request that raises does nothing. -/
theorem resolveInterrupt_raises {e : RequestError}
    (h : (resolveInterrupt valid rt svc dictOf now db blobs sid resolution
      resolvedBy draw interventionId).2 = .error e) :
    (resolveInterrupt valid rt svc dictOf now db blobs sid resolution
      resolvedBy draw interventionId).1 = [] := by
  unfold resolveInterrupt at h ⊢
  cases hwhole : resolveWhole valid rt svc dictOf now db blobs sid
      resolution resolvedBy draw interventionId with
  | error e => rfl
  | ok res =>
      rw [hwhole] at h
      simp only at h
      split at h
      · cases h
      · cases h

/-- A request that answers has resolved. -/
theorem resolveInterrupt_answers {resumed : Bool}
    (h : (resolveInterrupt valid rt svc dictOf now db blobs sid resolution
      resolvedBy draw interventionId).2 = .ok resumed) :
    ∃ res, resolveWhole valid rt svc dictOf now db blobs sid resolution
      resolvedBy draw interventionId = .ok res := by
  unfold resolveInterrupt at h
  cases hwhole : resolveWhole valid rt svc dictOf now db blobs sid
      resolution resolvedBy draw interventionId with
  | error e =>
      rw [hwhole] at h
      cases h
  | ok res => exact ⟨res, rfl⟩

/-- A resolution that returns commits the fold of its edits and its
answer exactly when the answer is merged unless skipped. -/
theorem foldCommitted_iff (hc : Chains db.artifacts)
    (hinj : Function.Injective draw) (hn : Undrawn draw 0 db.artifacts)
    (h : resolveWhole valid rt svc dictOf now db blobs sid resolution
      resolvedBy draw interventionId = .ok res) :
    ∃ store, applyArtifactEdits rt svc sid res.current.runId
        (signedBy resolvedBy) draw 0 resolution.artifactEdits
        (db.artifacts, blobs) = .ok store
      ∧ (FoldCommitted rt dictOf db blobs sid resolution
          (resolveInterrupt valid rt svc dictOf now db blobs sid resolution
            resolvedBy draw interventionId).1
        ↔ MergedUnlessSkipped rt svc dictOf sid resolution store) := by
  obtain ⟨store, hstore, hcurrent, hleft⟩ := resolveWhole_ok h
  obtain ⟨hchains, hundrawn⟩ := applyArtifactEdits_chains hinj hc hn hstore
  have hedits := applyArtifactEdits_applied hstore
  have hanswered := answered_eq resolution
  refine ⟨store, hstore, ?_⟩
  rw [resolveInterrupt_ok h]
  constructor
  · intro ⟨current, value, store', after, blobs', _, heffects, hedits',
      hfollows⟩ answer hanswer
    obtain ⟨hcommit, -⟩ := List.cons_eq_cons.mp heffects
    injection hcommit with hdb hblobs
    subst hdb hblobs
    -- both stores have the rows the edits ask for
    have hrows : store'.1.rows.length = store.1.rows.length :=
      hedits'.length_rows.trans hedits.length_rows.symm
    rw [hanswer] at hleft hanswered
    simp only at hleft
    unfold AnswerFollows at hfollows
    rcases @mergeContractProvidedFields_cases rt svc dictOf store sid
      (draw resolution.artifactEdits.length) res.current.runId answer
      hchains (fun r hr => hundrawn r hr _ (by omega))
      (mergedAnswer_ne_nil hanswer) with
      ⟨hwrites, report, row, -, hadds, -⟩ | ⟨hwrites, hsame⟩
    · refine ⟨fun _ => ?_, fun _ => hwrites⟩
      cases hskipped : resolution.skipped with
      | false => rfl
      | true =>
          rw [hanswered, if_pos hskipped] at hfollows
          have hlen : res.db.artifacts.rows.length
              = store.1.rows.length + 1 :=
            (congrArg (fun s => s.1.rows.length) hleft).trans
              hadds.length_rows
          have hnone : res.db.artifacts.rows.length
              = store'.1.rows.length :=
            congrArg (fun s => s.1.rows.length) hfollows
          omega
    · refine ⟨fun hw => absurd hw hwrites, fun hskipped => ?_⟩
      rw [hanswered, if_neg (by simp [hskipped])] at hfollows
      obtain ⟨report, row, -, hadds, -⟩ := hfollows
      have hlen : res.db.artifacts.rows.length
          = store'.1.rows.length + 1 := hadds.length_rows
      have hnone : res.db.artifacts.rows.length
          = store.1.rows.length :=
        congrArg (fun s => s.1.rows.length) (hleft.trans hsame)
      omega
  · intro hcond
    refine ⟨res.current, res.resumeValue, store, res.db, res.blobs,
      hcurrent, rfl, hedits, ?_⟩
    unfold AnswerFollows
    rw [hleft, hanswered]
    cases hanswer : resolution.mergedAnswer with
    | none =>
        simp only [ite_self]
    | some answer =>
        simp only
        rcases @mergeContractProvidedFields_cases rt svc dictOf store sid
          (draw resolution.artifactEdits.length) res.current.runId answer
          hchains (fun r hr => hundrawn r hr _ (by omega))
          (mergedAnswer_ne_nil hanswer) with
          ⟨hwrites, hmerged⟩ | ⟨hwrites, hsame⟩
        · have hskipped := (hcond answer hanswer).mp hwrites
          rw [if_neg (by simp [hskipped])]
          exact hmerged
        · have hskipped : resolution.skipped = true := by
            by_contra hns
            exact hwrites ((hcond answer hanswer).mpr (by simpa using hns))
          rw [if_pos hskipped]
          exact hsame

end Request

-- =============================================================== the result

/-- A request that raises changes nothing, leaves the interrupt pending
and resumes no run. One that answers commits the fold of its edits,
followed by its answer and nothing else, before it resumes the run,
exactly when the answer it carries is merged unless it is skipped. -/
theorem edits_fold_iff {n : Nat} {valid : Json → Json → Bool}
    {rt : Runtime} {svc : ArtifactService} {s : ArtifactState n}
    (h : ArtifactReaches rt svc Lts.Always s)
    {dictOf : Json → Option (List (String × Json))} {now : Time} {db : Db}
    (hdb : db.artifacts.rows = s.committed) {blobs : Blobs} {sid : Uuid}
    {resolution : InterruptResolution} {resolvedBy : Option String}
    {draw : Nat → Uuid} (hinj : Function.Injective draw)
    (hundrawn : Undrawn draw 0 db.artifacts) {interventionId : Uuid} :
    let request := resolveInterrupt valid rt svc dictOf now db blobs sid
      resolution resolvedBy draw interventionId
    (∀ e, request.2 = .error e →
        committedAfter db request.1 = db
        ∧ currentForSession (committedAfter db request.1).interrupts sid
          = currentForSession db.interrupts sid
        ∧ sentBy request.1 = [])
      ∧ ∀ resumed, request.2 = .ok resumed → ∃ current store,
        currentForSession db.interrupts sid = some current
        ∧ applyArtifactEdits rt svc sid current.runId (signedBy resolvedBy)
          draw 0 resolution.artifactEdits (db.artifacts, blobs) = .ok store
        ∧ (FoldCommitted rt dictOf db blobs sid resolution request.1
          ↔ MergedUnlessSkipped rt svc dictOf sid resolution store) := by
  intro request
  have hc : Chains db.artifacts := by
    intro cell
    rw [hdb]
    exact (reaches_chained h).drafts.committed cell
  refine ⟨fun e he => ?_, fun resumed hok => ?_⟩
  · have hnothing : request.1 = [] := resolveInterrupt_raises he
    rw [hnothing]
    exact ⟨rfl, rfl, rfl⟩
  · obtain ⟨res, hwhole⟩ := resolveInterrupt_answers hok
    obtain ⟨store, hstore, hiff⟩ := foldCommitted_iff hc hinj hundrawn
      hwhole
    obtain ⟨-, -, hcurrent, -⟩ := resolveWhole_ok hwhole
    exact ⟨res.current, store, hcurrent, hstore, hiff⟩

-- =============================================================== scenarios

/-- `resolve_interrupt` on session 10, where nothing is stored yet. -/
def requestFirst (rt : Runtime) (s : State)
    (resolution : InterruptResolution) :
    List RequestEffect × Except RequestError Bool :=
  resolveInterrupt Env.required.valid rt ArtifactService.default
    (fun _ => none) 100 s.db (fun _ => none) 10 resolution none
    (fun n => 50 + n) 60

/-- The interrupt that is answered, and what the edits leave. -/
def editFirst (rt : Runtime) (s : State)
    (resolution : InterruptResolution) :
    Option (InterruptRequest × (Table Artifact × Blobs)) :=
  (currentForSession s.db.interrupts 10).bind fun current =>
    (applyArtifactEdits rt ArtifactService.default 10
      current.runId (signedBy none) (fun n => 50 + n) 0
      resolution.artifactEdits (s.db.artifacts,
        fun _ => none)).toOption.map fun store => (current, store)

/-- A case number, with a note. -/
def caseNumber (skipped : Bool) : InterruptResolution :=
  .info (some [("case_number", .str "A-123")]) skipped none
    [⟨"notes", .str "hello", none, "replace", none, none⟩]

/-- The body is accepted, nothing was stored, and the answer can be
merged. -/
theorem caseNumber_accepted (skipped : Bool) : ∃ s store current,
    Lts.run (apply Env.required) State.init (askedWith caseQuestion)
      = some s
    ∧ s.db.artifacts.rows = []
    ∧ (∃ resumed, (requestFirst Runtime.sample s (caseNumber skipped)).2 = .ok resumed)
    ∧ editFirst Runtime.sample s (caseNumber skipped) = some (current, store)
    ∧ MergeWrites Runtime.sample ArtifactService.default (fun _ => none) 10
      [("case_number", .str "A-123")] store := by
  have hrun : ((Lts.run (apply Env.required) State.init
      (askedWith caseQuestion)).map fun s =>
        (s.db.artifacts.rows,
          (requestFirst Runtime.sample s (caseNumber skipped)).2.toOption,
          (editFirst Runtime.sample s (caseNumber skipped)).map fun found =>
            decide (MergeWrites Runtime.sample ArtifactService.default
              (fun _ => none) 10 [("case_number", .str "A-123")] found.2)))
      = some ([], some true, some true) := by
    cases skipped <;> decide +kernel
  obtain ⟨s, hs, hmap⟩ := Option.map_eq_some_iff.mp hrun
  simp only [Prod.mk.injEq] at hmap
  obtain ⟨hrows, hok, hfound⟩ := hmap
  obtain ⟨⟨current, store⟩, hedit, hwrites⟩ :=
    Option.map_eq_some_iff.mp hfound
  refine ⟨s, store, current, hs, hrows, ⟨true, ?_⟩, hedit,
    of_decide_eq_true hwrites⟩
  cases hresult : (requestFirst Runtime.sample s (caseNumber skipped)).2 with
  | error e =>
      rw [hresult] at hok
      cases hok
  | ok resumed =>
      rw [hresult] at hok
      injection hok with hok
      rw [hok]

/-- The uuid4 values of `requestFirst` are fresh. -/
theorem undrawn_first {artifacts : Table Artifact}
    (h : artifacts.rows = []) : Undrawn (fun n => 50 + n) 0 artifacts := by
  intro r hr
  rw [h] at hr
  exact absurd hr List.not_mem_nil

/-- A note and an unskipped answer: both are committed, in order. -/
theorem case_number_folded : ∃ s,
    Lts.run (apply Env.required) State.init (askedWith caseQuestion)
      = some s
    ∧ FoldCommitted Runtime.sample (fun _ => none) s.db (fun _ => none) 10
      (caseNumber false) (requestFirst Runtime.sample s (caseNumber false)).1 := by
  obtain ⟨s, store, current, hs, hrows, ⟨resumed, hok⟩, hedit, hwrites⟩ :=
    caseNumber_accepted false
  have hresult := (edits_fold_iff (@Lts.Reachable.init _ _ _ _
    (ArtifactState.init 1)) hrows (fun i j hij => Nat.add_left_cancel hij)
    (undrawn_first hrows)).2 resumed hok
  obtain ⟨current', store', hcurrent, hstore, hiff⟩ := hresult
  refine ⟨s, hs, hiff.mpr fun answer hanswer => ?_⟩
  unfold editFirst at hedit
  rw [hcurrent, Option.bind_some, hstore] at hedit
  injection hedit with hedit
  rw [show store' = store from congrArg Prod.snd hedit]
  injection hanswer with hanswer
  subst hanswer
  exact iff_of_true hwrites rfl

/-- A skipped request has its answer merged into the report. -/
theorem skipped_case_number_merged :
    ¬ ∀ s resolution, Reaches Env.required Lts.Always s →
      (∃ resumed, (requestFirst Runtime.sample s resolution).2 = .ok resumed) →
      FoldCommitted Runtime.sample (fun _ => none) s.db (fun _ => none) 10
        resolution (requestFirst Runtime.sample s resolution).1 := by
  intro hall
  obtain ⟨s, store, current, hs, hrows, ⟨resumed, hok⟩, hedit, hwrites⟩ :=
    caseNumber_accepted true
  have hfold := hall s _ (Lts.reachable_of_run .init hs) ⟨resumed, hok⟩
  have hc : Chains s.db.artifacts := by
    intro cell
    rw [hrows]
    exact VersionChain.IsChain.nil
  obtain ⟨res, hwhole⟩ := resolveInterrupt_answers hok
  obtain ⟨store', hstore, hiff⟩ := foldCommitted_iff hc
    (fun i j hij => Nat.add_left_cancel hij) (undrawn_first hrows) hwhole
  obtain ⟨-, -, hcurrent, -⟩ := resolveWhole_ok hwhole
  unfold editFirst at hedit
  rw [hcurrent, Option.bind_some, hstore] at hedit
  injection hedit with hedit
  have hskipped := (hiff.mp hfold _ rfl).mp
    (by rw [show store' = store from congrArg Prod.snd hedit]
        exact hwrites)
  cases hskipped

end LegalBot
