/-
`InterruptService.resolve` up to its own rows: the checks, the artifact
edits of the body, the answer merged into the report, the resume value.

# What is merged

`_merge_contract_provided_fields` runs for every truthy answer, skipped
or not, and folds it over `action_payload.provided_fields` of
`analysis/report`. Whatever raises inside it is logged and dropped, so
it never makes `resolve` raise; an artifact edit that raises does.

# Python's `dict`

`dict(v)` of a truthy value that is no dict (a list of pairs, say) is
left to the runtime: `dictOf`.
-/
import LegalBot.Artifacts.Service
import LegalBot.Interrupts.Service

namespace LegalBot

open Relational (HasKey Table)

-- ========================================================= artifact writes

/-- `ArtifactService.update`, alone on the database. -/
def ArtifactService.update (svc : ArtifactService) (rt : Runtime)
    (artifacts : Table Artifact) (blobs : Blobs) (u : UpdateArgs)
    (id : Uuid) : Except ArtifactError (Table Artifact × Blobs) := do
  let (a, _, _) ← updateFrom rt u
    (read rt artifacts.rows blobs u.sessionId (.key u.key) none)
  let (_, artifacts, blobs) ← write rt svc artifacts blobs a id
  return (artifacts, blobs)

/-- `merge` of an artifact edit. -/
def ArtifactEdit.mode (e : ArtifactEdit) : MergeMode :=
  if e.merge = "json_merge_patch" then .jsonMergePatch else .replace

/-- `edit.mime or "application/json"`. -/
def ArtifactEdit.mimeOrJson (e : ArtifactEdit) : String :=
  match e.mime with
  | some mime => if mime = "" then "application/json" else mime
  | none => "application/json"

/-- The update an edit asks for: a patch is applied in its own mode, a
content replaces, an edit with neither does nothing. -/
def ArtifactEdit.updateArgs (e : ArtifactEdit) (sessionId : Uuid)
    (runId : Option Uuid) (createdBy : String) : Option UpdateArgs :=
  let args := fun (content : Json) (mode : MergeMode) =>
    { sessionId := sessionId, key := e.key
      patchOrContent := .value content, merge := mode, runId := runId
      producer := "user", kind := none, mime := e.mimeOrJson
      metadata := e.metadata, createdBy := some createdBy : UpdateArgs }
  match e.patch, e.content with
  | some patch, _ => some (args (.obj patch) e.mode)
  | none, .null => none
  | none, content => some (args content .replace)

/-- `_apply_artifact_edit`, for each edit of the body; `draw` gives the
uuid4 of each write. -/
def applyArtifactEdits (rt : Runtime) (svc : ArtifactService)
    (sessionId : Uuid) (runId : Option Uuid) (createdBy : String)
    (draw : Nat → Uuid) :
    Nat → List ArtifactEdit → Table Artifact × Blobs →
    Except ArtifactError (Table Artifact × Blobs)
  | _, [], store => .ok store
  | n, e :: rest, (artifacts, blobs) =>
      match e.updateArgs sessionId runId createdBy with
      | none =>
          applyArtifactEdits rt svc sessionId runId createdBy draw (n + 1)
            rest (artifacts, blobs)
      | some u => do
          let store ← svc.update rt artifacts blobs u (draw n)
          applyArtifactEdits rt svc sessionId runId createdBy draw (n + 1)
            rest store

-- ========================================================= provided fields

/-- `dict(v or \x7b\x7d)`. -/
def asDict (dictOf : Json → Option (List (String × Json))) (v : Json) :
    Option (List (String × Json)) :=
  match v with
  | .obj ms => some ms
  | v => if v.truthy then dictOf v else some []

/-- `d.update(other)`. -/
def updateMembers (d other : List (String × Json)) :
    List (String × Json) :=
  other.foldl (fun d m => Json.setMember d m.1 m.2) d

/-- The report with the answer merged into
`action_payload.provided_fields`; `none` when a `dict(…)` raises. -/
def mergedReport (dictOf : Json → Option (List (String × Json)))
    (report answer : List (String × Json)) :
    Option (List (String × Json)) := do
  let payload ← asDict dictOf
    ((Json.getMember report "action_payload").getD .null)
  let fields ← asDict dictOf
    ((Json.getMember payload "provided_fields").getD .null)
  return Json.setMember report "action_payload"
    (.obj (Json.setMember payload "provided_fields"
      (.obj (updateMembers fields answer))))

/-- `report_content`: the latest report when it can be read and is a
dict. -/
def reportContent (rt : Runtime) (rows : List Artifact) (blobs : Blobs)
    (sessionId : Uuid) : List (String × Json) :=
  match read rt rows blobs sessionId (.key "analysis/report") none with
  | .ok (_, .value (.obj ms)) => ms
  | _ => []

/-- `_merge_contract_provided_fields`. -/
def mergeContractProvidedFields (rt : Runtime) (svc : ArtifactService)
    (dictOf : Json → Option (List (String × Json))) (sessionId : Uuid)
    (runId : Option Uuid) (answer : List (String × Json)) (id : Uuid)
    (store : Table Artifact × Blobs) : Table Artifact × Blobs :=
  if answer.isEmpty then store
  else
    match mergedReport dictOf
      (reportContent rt store.1.rows store.2 sessionId) answer with
    | none => store
    | some report =>
        match svc.update rt store.1 store.2
          { sessionId := sessionId, key := "analysis/report"
            patchOrContent := .value (.obj report), merge := .replace
            runId := runId, producer := "interrupt"
            kind := some "analysis", mime := "application/json"
            metadata := none, createdBy := none } id with
        | .ok store' => store'
        | .error _ => store

/-- `isinstance(resolution, InterruptResolutionInfo) and
resolution.answer`: the answer that is merged. -/
def InterruptResolution.mergedAnswer :
    InterruptResolution → Option (List (String × Json))
  | .info (some answer) _ _ _ =>
      if answer.isEmpty then none else some answer
  | _ => none

-- ================================================================= resolve

/-- What `resolve` hands on: the row it answers, the resume value, and
the artifacts with the edits and the answer. -/
structure Resolved where
  current : InterruptRequest
  resumeValue : Json
  artifacts : Table Artifact
  blobs : Blobs

/-- `resolve` up to its own rows; `resolvedBy or "user"` signs the
edits. -/
def resolveBody (valid : Json → Json → Bool) (rt : Runtime)
    (svc : ArtifactService)
    (dictOf : Json → Option (List (String × Json)))
    (interrupts : Table InterruptRequest) (artifacts : Table Artifact)
    (blobs : Blobs) (sessionId : Uuid) (resolution : InterruptResolution)
    (resolvedBy : Option String) (draw : Nat → Uuid) :
    Except (ResolveError ⊕ ArtifactError) Resolved :=
  match checkResolution valid (currentForSession interrupts sessionId)
    resolution with
  | .error e => .error (.inl e)
  | .ok (current, value) =>
      let createdBy :=
        match resolvedBy with
        | some name => if name = "" then "user" else name
        | none => "user"
      match applyArtifactEdits rt svc sessionId current.runId createdBy
        draw 0 resolution.artifactEdits (artifacts, blobs) with
      | .error e => .error (.inr e)
      | .ok store =>
          let store :=
            match resolution.mergedAnswer with
            | none => store
            | some answer =>
                mergeContractProvidedFields rt svc dictOf sessionId
                  current.runId answer
                  (draw resolution.artifactEdits.length) store
          .ok ⟨current, value, store.1, store.2⟩

-- ================================================================== lookups

/-- `d.update(other)` leaves the other members alone. -/
theorem getMember_updateMembers_other {k : String} :
    ∀ {other d : List (String × Json)}, k ∉ other.map Prod.fst →
      Json.getMember (updateMembers d other) k = Json.getMember d k := by
  intro other
  induction other with
  | nil => exact fun _ => rfl
  | cons m rest ih =>
      intro d hk
      rw [List.map_cons, List.mem_cons, not_or] at hk
      refine (ih hk.2).trans ?_
      rw [Json.getMember_setMember, if_neg (Ne.symm hk.1)]

/-- After `d.update(other)` the members of `other` are there. -/
theorem getMember_updateMembers {k : String} {v : Json} :
    ∀ {other d : List (String × Json)}, (other.map Prod.fst).Nodup →
      (k, v) ∈ other →
      Json.getMember (updateMembers d other) k = some v := by
  intro other
  induction other with
  | nil => exact fun _ h => absurd h List.not_mem_nil
  | cons m rest ih =>
      intro d hnd h
      obtain ⟨hfresh, hnd⟩ := List.nodup_cons.mp hnd
      rcases List.mem_cons.mp h with rfl | h
      · -- no later member has the same key
        refine (getMember_updateMembers_other hfresh).trans ?_
        rw [Json.getMember_setMember, if_pos rfl]
      · exact ih hnd h

/-- The report of a merge carries every field of the answer. -/
theorem mergedReport_fields
    {dictOf : Json → Option (List (String × Json))}
    {report answer merged : List (String × Json)}
    (h : mergedReport dictOf report answer = some merged)
    (hnd : (answer.map Prod.fst).Nodup) :
    ∃ payload fields, Json.getMember merged "action_payload"
        = some (.obj payload)
      ∧ Json.getMember payload "provided_fields" = some (.obj fields)
      ∧ ∀ k v, (k, v) ∈ answer → Json.getMember fields k = some v := by
  obtain ⟨payload, -, h⟩ := Option.bind_eq_some_iff.mp h
  obtain ⟨fields, -, h⟩ := Option.bind_eq_some_iff.mp h
  injection h with h
  subst h
  refine ⟨Json.setMember payload "provided_fields"
      (.obj (updateMembers fields answer)), updateMembers fields answer,
    ?_, ?_, fun k v hkv => getMember_updateMembers hnd hkv⟩
  · rw [Json.getMember_setMember, if_pos rfl]
  · rw [Json.getMember_setMember, if_pos rfl]

end LegalBot
