/-
`_invoke_graph` as a sequence of stages, each of which asks for one
thing: run a transaction, send a message, or go on.

# Stages and requests

A stage is a program point between two points where other actors may
run. `Stage.request` says what the code does next there, given what the
environment answered (`Reply`): the outcome of an import, a graph call
or a publish, the uuid4 values drawn. A `commit` carries both
continuations; the caller of the request runs the transaction.

# The try block

The stages from `ainvoke` to `enqueueIndex` are the body of the one
`try`; whatever raises there continues at `failRun`. What raises before
it (`prepare`) or inside the handler itself escapes to the caller.
-/
import LegalBot.Orchestrator.Tx

namespace LegalBot

open Relational (HasKey Table)

-- ================================================================ messages

/-- A Celery message. `interrupt` is ghost data: the interrupt whose
resolution sent a `resumeRun`. -/
inductive Message where
  | runPipeline (jobId : Uuid)
  | continueSession (runId : Uuid)
  | resumeRun (runId : Uuid) (payload : Json) (interrupt : Option Uuid)
  | graphIndexRun (runId : Uuid)
  deriving DecidableEq

/-- What the environment answers at a program point. -/
inductive Reply where
  | ok
  | raised (exc : String)
  | fresh (ids : List Uuid) (hex : String)
  | output (state : GraphOutput)
  | interrupts (values : List Json)
  | locked (ids : List Uuid)
  | checkpoint (id : String)
  deriving DecidableEq

/-- What a program point of type `P` asks for. -/
inductive Request (P : Type) where
  | goto (next : P)
  | commit (tx : Tx) (ok : P) (raised : String → P)
  | send (message : Message) (next : P)
  | note (event : Event) (next : P)
  | acquire (jobId : Uuid) (next : P)
  | release (jobId : Uuid) (next : P)

/-- Embed the program points of a callee into those of its caller. -/
def Request.map {P Q : Type} (f : P → Q) : Request P → Request Q
  | .goto next => .goto (f next)
  | .commit tx ok raised => .commit tx (f ok) fun e => f (raised e)
  | .send m next => .send m (f next)
  | .note e next => .note e (f next)
  | .acquire j next => .acquire j (f next)
  | .release j next => .release j (f next)

-- ================================================================== stages

/-- The arguments of one `_invoke_graph` call; `interrupt` is ghost. -/
structure Invocation where
  runId : Uuid
  sessionId : Uuid
  resumePayload : Json
  hasAttachments : Option Bool
  interrupt : Option Uuid
  deriving DecidableEq

/-- The program points of `_invoke_graph`. -/
inductive Stage where
  | enter
  | prepare
  | ainvoke
  | running
  | project (output : GraphOutput)
  | inspect
  | pauseRun
  | readInterrupts
  | openInterrupt (kind : InterruptKind) (payload : Json)
      (schema : Option Json)
  | pauseJob
  | completeRun
  | finalize
  | enqueueIndex
  | failRun (exc : String)
  | failJob (exc : String)
  | returned (ok : Bool)
  | escaped
  deriving DecidableEq

/-- `resume_payload is not None`. -/
def Invocation.resumes (inv : Invocation) : Bool :=
  decide (inv.resumePayload ≠ .null)

def MarkedStatus.completed : MarkedStatus := ⟨.completed, by decide⟩
def MarkedStatus.awaitingHuman : MarkedStatus := ⟨.awaitingHuman, by decide⟩
def MarkedStatus.failed : MarkedStatus := ⟨.failed, by decide⟩

/-- `_persist_interrupt_from_checkpoint` up to its insert: the next
stage, given the interrupt values on the checkpoint. -/
def persistInterrupt (db : Db) (sessionId : Uuid) : List Json → Stage
  | [] => .pauseJob
  | envelope :: _ =>
      if (currentForSession db.interrupts sessionId).isSome then .pauseJob
      else
        match envelope with
        | .obj members =>
            match normalizeInterruptEnvelope members with
            | .ok (kind, payload, schema) =>
                .openInterrupt kind payload schema
            | .error e => .failRun e
        | _ => .pauseJob

/-- `_enqueue_graph_index_run`: does it publish? -/
def enqueuesIndex (cfg : Settings) (db : Db) (runId : Uuid) : Bool :=
  cfg.kgEnabled && match db.runs.get runId with
    | some run => decide (run.kind = .pipeline)
    | none => false

/-- What the code does at each stage; `none` when the answer does not
fit the stage. -/
def Stage.request (cfg : Settings) (db : Db) (inv : Invocation)
    (reply : Reply) : Stage → Option (Request Stage)
  | .enter =>
      match reply with
      | .ok => some (.goto .prepare)
      | .raised e => some (.goto (.failRun e))
      | _ => none
  | .prepare =>
      -- the session read and `get_compiled_graph()` precede the `try`
      match reply with
      | .ok =>
          match db.sessions.get inv.sessionId with
          | some _ => some (.goto .ainvoke)
          | none => some (.goto .escaped)
      | .raised _ => some (.goto .escaped)
      | _ => none
  | .ainvoke =>
      match reply with
      | .ok =>
          some (.note (.invoked inv.runId inv.resumes inv.interrupt)
            .running)
      | .raised e =>
          -- only `_ensure_resume_has_attachments` runs before the call
          if inv.resumes ∧ inv.hasAttachments.isSome then
            some (.goto (.failRun e))
          else none
      | _ => none
  | .running =>
      match reply with
      | .output state => some (.goto (.project state))
      | .raised e => some (.goto (.failRun e))
      | _ => none
  | .project state =>
      match reply with
      | .fresh ids _ =>
          some (.commit (.writeProjection inv.sessionId inv.runId state ids)
            .inspect .failRun)
      | .raised e => some (.goto (.failRun e))
      | _ => none
  | .inspect =>
      match reply with
      | .interrupts values =>
          some (.goto (if values.isEmpty then .completeRun else .pauseRun))
      | .raised _ => some (.goto .completeRun)
      | _ => none
  | .pauseRun =>
      match reply with
      | .ok =>
          some (.commit (.markRunStatus inv.runId .awaitingHuman)
            .readInterrupts .failRun)
      | _ => none
  | .readInterrupts =>
      match reply with
      | .interrupts values =>
          some (.goto (persistInterrupt db inv.sessionId values))
      | .raised _ => some (.goto .pauseJob)
      | _ => none
  | .openInterrupt kind payload schema =>
      match reply with
      | .fresh (id :: _) _ =>
          some (.commit (.openInterrupt id inv.sessionId (some inv.runId)
            kind payload schema) .pauseJob .failRun)
      | _ => none
  | .pauseJob =>
      match reply with
      | .ok =>
          some (.commit (.pauseJob inv.sessionId inv.runId)
            (.returned true) .failRun)
      | _ => none
  | .completeRun =>
      match reply with
      | .ok =>
          some (.commit (.markRunStatus inv.runId .completed)
            .finalize .failRun)
      | _ => none
  | .finalize =>
      match reply with
      | .ok =>
          some (.commit (.finalizeJob inv.sessionId inv.runId)
            .enqueueIndex .failRun)
      | _ => none
  | .enqueueIndex =>
      if enqueuesIndex cfg db inv.runId then
        match reply with
        | .ok => some (.send (.graphIndexRun inv.runId) (.returned true))
        | .raised e => some (.goto (.failRun e))
        | _ => none
      else some (.goto (.returned true))
  | .failRun e =>
      match reply with
      | .ok =>
          some (.commit (.markRunStatus inv.runId .failed)
            (.failJob e) fun _ => .escaped)
      | _ => none
  | .failJob e =>
      match reply with
      | .ok =>
          some (.commit (.failJob inv.runId e) (.returned false)
            fun _ => .escaped)
      | _ => none
  | .returned _ => none
  | .escaped => none

end LegalBot
