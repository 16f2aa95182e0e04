/-
POST /sessions/{session_id}/interrupt: `resolve_interrupt` over the whole
of `InterruptService.resolve`.

# What a request does, in order

`resolveInterrupt` returns the effects of the request as a list: the
commit of its one transaction, then the `resume_run` it enqueues. A
request that raises returns none: leaving the session block rolls the
transaction back, and a blob it has put is one no row refers to.

The orchestrator (`Orchestrator/Tasks.lean`) runs the same request as two
points, the checks and the commit, and keeps no artifacts; the rows it
commits are those of `resolveWhole` (`resolveWhole_commits`).
-/
import LegalBot.Interrupts.ProvidedFields
import LegalBot.Orchestrator.Tasks

namespace LegalBot

open Relational (HasKey Table)

-- ================================================================= one edit

/-- `resolved_by or "user"`. -/
def signedBy (resolvedBy : Option String) : String :=
  match resolvedBy with
  | some name => if name = "" then "user" else name
  | none => "user"

/-- `_apply_artifact_edit`; `id` is the uuid4 its write draws. -/
def applyArtifactEdit (rt : Runtime) (svc : ArtifactService)
    (sessionId : Uuid) (runId : Option Uuid) (createdBy : String)
    (id : Uuid) (e : ArtifactEdit) (store : Table Artifact × Blobs) :
    Except ArtifactError (Table Artifact × Blobs) :=
  match e.updateArgs sessionId runId createdBy with
  | none => .ok store
  | some u => svc.update rt store.1 store.2 u id

-- ================================================================== resolve

/-- What makes a resolution raise: a check, an artifact edit, or a row
that cannot be inserted. -/
inductive RequestError where
  | resolution (e : ResolveError)
  | artifact (e : ArtifactError)
  | integrity
  deriving DecidableEq, Repr

/-- What a resolution leaves in its transaction, with the row it answers
and the resume value. -/
structure Resolution where
  db : Db
  blobs : Blobs
  current : InterruptRequest
  resumeValue : Json

/-- `InterruptService.resolve`: the checks, the edits and the answer, then
its own rows. -/
def resolveWhole (valid : Json → Json → Bool) (rt : Runtime)
    (svc : ArtifactService)
    (dictOf : Json → Option (List (String × Json))) (now : Time)
    (db : Db) (blobs : Blobs) (sessionId : Uuid)
    (resolution : InterruptResolution) (resolvedBy : Option String)
    (draw : Nat → Uuid) (interventionId : Uuid) :
    Except RequestError Resolution :=
  match resolveBody valid rt svc dictOf db.interrupts db.artifacts blobs
    sessionId resolution resolvedBy draw with
  | .error (.inl e) => .error (.resolution e)
  | .error (.inr e) => .error (.artifact e)
  | .ok out =>
      match resolve { db with artifacts := out.artifacts } now sessionId
        out.current resolution resolvedBy interventionId with
      | none => .error .integrity
      | some db' => .ok ⟨db', out.blobs, out.current, out.resumeValue⟩

-- ============================================================== the request

/-- What a request does to the outside: the rows it commits with the
blobs they refer to, and what it enqueues. -/
inductive RequestEffect where
  | commit (db : Db) (blobs : Blobs)
  | send (message : Message)

/-- `resolve_interrupt`: its effects, and whether a run is resumed. -/
def resolveInterrupt (valid : Json → Json → Bool) (rt : Runtime)
    (svc : ArtifactService)
    (dictOf : Json → Option (List (String × Json))) (now : Time)
    (db : Db) (blobs : Blobs) (sessionId : Uuid)
    (resolution : InterruptResolution) (resolvedBy : Option String)
    (draw : Nat → Uuid) (interventionId : Uuid) :
    List RequestEffect × Except RequestError Bool :=
  match resolveWhole valid rt svc dictOf now db blobs sessionId resolution
    resolvedBy draw interventionId with
  | .error e => ([], .error e)
  | .ok res =>
      match res.current.runId with
      | some runId =>
          ([.commit res.db res.blobs, .send (.resumeRun runId
            res.resumeValue (some res.current.id))], .ok true)
      | none => ([.commit res.db res.blobs], .ok false)

/-- The database after some effects. -/
def committedAfter (db : Db) (effects : List RequestEffect) : Db :=
  effects.foldl (fun db effect =>
    match effect with
    | .commit db' _ => db'
    | .send _ => db) db

/-- The messages of some effects. -/
def sentBy (effects : List RequestEffect) : List Message :=
  effects.filterMap fun effect =>
    match effect with
    | .commit _ _ => none
    | .send m => some m

/-- The rows a resolution commits are those of the orchestrator's
transaction, on the artifacts it has written. -/
theorem resolveWhole_commits {valid : Json → Json → Bool} {rt : Runtime}
    {svc : ArtifactService}
    {dictOf : Json → Option (List (String × Json))} {now : Time}
    {db : Db} {blobs : Blobs} {sid : Uuid}
    {resolution : InterruptResolution} {resolvedBy : Option String}
    {draw : Nat → Uuid} {interventionId : Uuid} {res : Resolution}
    (h : resolveWhole valid rt svc dictOf now db blobs sid resolution
      resolvedBy draw interventionId = .ok res) (cfg : Settings) :
    ∃ out, resolveBody valid rt svc dictOf db.interrupts db.artifacts blobs
        sid resolution resolvedBy draw = .ok out
      ∧ Tx.commit cfg now { db with artifacts := out.artifacts }
        (.resolve sid out.current resolution resolvedBy interventionId)
        = .ok res.db
      ∧ res.blobs = out.blobs ∧ res.current = out.current
      ∧ res.resumeValue = out.resumeValue := by
  unfold resolveWhole at h
  split at h
  · cases h
  · cases h
  · rename_i out hbody
    split at h
    · cases h
    · rename_i db' hrows
      injection h with h
      subst h
      refine ⟨out, hbody, ?_, rfl, rfl, rfl⟩
      unfold Tx.commit
      exact flushed_ok.mpr hrows

end LegalBot
