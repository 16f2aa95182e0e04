/-
`ArtifactService.write` and `update` in concurrent transactions, one
statement a step, under READ COMMITTED.

# Visibility

A statement sees the rows committed when it runs and what its own
transaction wrote (`ArtifactTx.view`): the draft of its finished calls,
and the demotion of the call in progress once its `UPDATE` ran. A commit
stores the draft; a statement that raises ends its transaction, which
may also end at any other time (`rollback`).

# Locks

`UPDATE` takes a row lock until the transaction ends, and waits for
another's. `INSERT` checks the unique indexes against every row version
that is or may become visible: it waits while another open transaction
has inserted a conflicting row or has demoted a conflicting committed
one, and raises on a conflict with a row it sees. A step that waits is
not enabled.

# Ghost data

`origins` records, for the rows a `json_merge_patch` update inserted,
the patch and the row and content the update read. No statement reads
it.
-/
import LegalBot.Artifacts.Service
import LegalBot.Lib.Drafts
import LegalBot.Lib.System
import Mathlib.Data.Fintype.Basic

namespace LegalBot

open VersionChain (Draft demoteIn rowsOf)

-- =================================================================== points

/-- What a merged content was computed from. -/
structure Origin where
  patch : Content
  source : Option Uuid
  previous : Content
  deriving DecidableEq

/-- A write that knows its version and its payload. -/
structure PendingWrite where
  args : WriteArgs
  origin : Option Origin
  version : Nat
  payload : Payload
  id : Uuid
  deriving DecidableEq

/-- The program points of a transaction: before each statement of the
call in progress, or between two calls. -/
inductive WritePoint where
  | idle
  | readContent (u : UpdateArgs)
  | nextVersion (a : WriteArgs) (origin : Option Origin)
  | storePayload (a : WriteArgs) (origin : Option Origin) (version : Nat)
  | selectLatest (w : PendingWrite)
  | demote (w : PendingWrite) (prior : Uuid)
  | insert (w : PendingWrite) (prior : Option Uuid)
  deriving DecidableEq

/-- A call of the service. -/
inductive ArtifactCall where
  | write (a : WriteArgs)
  | update (u : UpdateArgs)
  deriving DecidableEq

/-- Its first statement. -/
def ArtifactCall.entry : ArtifactCall → WritePoint
  | .write a => .nextVersion a none
  | .update u => .readContent u

/-- The rows the call in progress has demoted. -/
def WritePoint.demoted : WritePoint → List Uuid
  | .insert _ prior => prior.toList
  | _ => []

/-- The row a write inserts. -/
def PendingWrite.row (rt : Runtime) (w : PendingWrite)
    (prior : Option Uuid) : Artifact :=
  newArtifact rt w.args w.id w.version w.payload prior

/-- The origin of what an update writes: recorded for merges only. -/
def UpdateArgs.originOf (u : UpdateArgs) (row : Option Artifact)
    (previous : Content) : Option Origin :=
  match u.merge with
  | .jsonMergePatch =>
      some ⟨u.patchOrContent, row.map (·.id), previous⟩
  | _ => none

-- =================================================================== states

/-- A transaction: where it is and what it has written. -/
structure ArtifactTx where
  point : WritePoint
  draft : Draft Artifact Uuid
  origins : List (Uuid × Origin)

/-- A transaction that has done nothing. -/
def ArtifactTx.start : ArtifactTx := ⟨.idle, .empty, []⟩

/-- The rows a transaction sees. -/
def ArtifactTx.view (tx : ArtifactTx) (committed : List Artifact) :
    List Artifact :=
  (tx.draft.on committed).map (demoteIn tx.point.demoted)

/-- The rows a transaction has locked by updating them. -/
def ArtifactTx.locked (tx : ArtifactTx) : List Uuid :=
  tx.point.demoted ++ tx.draft.demoted

/-- The table, the blob store and `n` open transactions. -/
structure ArtifactState (n : Nat) where
  committed : List Artifact
  blobs : Blobs
  txs : Fin n → ArtifactTx
  origins : List (Uuid × Origin)

/-- No artifacts. -/
def ArtifactState.init (n : Nat) : ArtifactState n :=
  { committed := [], blobs := fun _ => none, txs := fun _ => .start
    origins := [] }

/-- What may happen next; `id` is the uuid4 a statement draws. -/
inductive ArtifactAction (n : Nat) where
  | call (t : Fin n) (c : ArtifactCall)
  | statement (t : Fin n) (id : Uuid)
  | commit (t : Fin n)
  | rollback (t : Fin n)

-- =============================================================== statements

/-- How a statement ends. -/
inductive StatementOutcome where
  | goes (point : WritePoint) (blobs : Blobs)
  | inserted (row : Artifact) (prior : Option Uuid)
      (origin : Option Origin)
  | raised (e : ArtifactError)

section Statements

variable {n : Nat} (rt : Runtime) (svc : ArtifactService)

/-- Another transaction holds the row lock. -/
def ArtifactState.LockedByOther (s : ArtifactState n) (t : Fin n)
    (row : Uuid) : Prop :=
  ∃ t', t' ≠ t ∧ row ∈ (s.txs t').locked

/-- The insert has to wait for another transaction to end. -/
def ArtifactState.InsertWaits (s : ArtifactState n) (t : Fin n)
    (row : Artifact) : Prop :=
  ∃ t', t' ≠ t ∧ ((∃ r ∈ (s.txs t').draft.inserted, r.conflicts row)
    ∨ ∃ r ∈ s.committed, r.conflicts row ∧ r.id ∈ (s.txs t').locked)

instance (s : ArtifactState n) (t : Fin n) (row : Uuid) :
    Decidable (s.LockedByOther t row) := by
  unfold ArtifactState.LockedByOther
  infer_instance

instance (s : ArtifactState n) (t : Fin n) (row : Artifact) :
    Decidable (s.InsertWaits t row) := by
  unfold ArtifactState.InsertWaits
  infer_instance

/-- The next statement of a transaction; `none` when it waits or has
nothing to do. -/
def ArtifactState.statement (s : ArtifactState n) (t : Fin n)
    (id : Uuid) : Option StatementOutcome :=
  let view := (s.txs t).view s.committed
  match (s.txs t).point with
  | .idle => none
  | .readContent u =>
      match updateFrom rt u
        (read rt view s.blobs u.sessionId (.key u.key) none) with
      | .ok (a, row, previous) =>
          some (.goes (.nextVersion a (u.originOf row previous)) s.blobs)
      | .error e => some (.raised e)
  | .nextVersion a origin =>
      let version := nextVersion view a.sessionId a.key
      if svc.versionCap < version then
        some (.raised (.versionCapExceeded a.key svc.versionCap))
      else some (.goes (.storePayload a origin version) s.blobs)
  | .storePayload a origin version =>
      match payloadOf rt svc a with
      | .error e => some (.raised e)
      | .ok payload =>
          -- a uuid4 value names no blob yet
          if payload.storage = .blob
              ∧ (s.blobs (blobRefOf a.sessionId id)).isSome then none
          else some (.goes (.selectLatest ⟨a, origin, version, payload, id⟩)
            (putPayload s.blobs a id payload))
  | .selectLatest w =>
      match selectLatest view w.args.sessionId w.args.key with
      | .ok none => some (.goes (.insert w none) s.blobs)
      | .ok (some prior) => some (.goes (.demote w prior) s.blobs)
      | .error e => some (.raised e)
  | .demote w prior =>
      if s.LockedByOther t prior then none
      else some (.goes (.insert w (some prior)) s.blobs)
  | .insert w prior =>
      let row := w.row rt prior
      if s.InsertWaits t row then none
      else if Violates view row then some (.raised .integrityError)
      else some (.inserted row prior w.origin)

/-- End a transaction without storing anything. -/
def ArtifactState.rollback (s : ArtifactState n) (t : Fin n) :
    ArtifactState n :=
  { s with txs := Function.update s.txs t .start }

/-- The state a statement leaves. -/
def ArtifactState.after (s : ArtifactState n) (t : Fin n) :
    StatementOutcome → ArtifactState n
  | .goes point blobs =>
      { s with
        blobs := blobs
        txs := Function.update s.txs t { s.txs t with point := point } }
  | .inserted row prior origin =>
      { s with
        txs := Function.update s.txs t
          { point := .idle
            draft := (s.txs t).draft.extend prior row
            origins := (s.txs t).origins
              ++ origin.toList.map fun o => (row.id, o) } }
  | .raised _ => s.rollback t

/-- Store what a transaction sees. -/
def ArtifactState.commit (s : ArtifactState n) (t : Fin n) :
    ArtifactState n :=
  { s with
    committed := (s.txs t).draft.on s.committed
    txs := Function.update s.txs t .start
    origins := s.origins ++ (s.txs t).origins }

/-- Take one step, or `none` when it is not enabled. -/
def ArtifactState.step (a : ArtifactAction n) (s : ArtifactState n) :
    Option (ArtifactState n) :=
  match a with
  | .call t c =>
      if (s.txs t).point = .idle then
        some (s.after t (.goes c.entry s.blobs))
      else none
  | .statement t id => (s.statement rt svc t id).map (s.after t)
  | .commit t =>
      if (s.txs t).point = .idle then some (s.commit t) else none
  | .rollback t => some (s.rollback t)

/-- The states that concurrent transactions reach by steps that meet
`G`. -/
abbrev ArtifactReaches
    (G : ArtifactAction n → ArtifactState n → Prop) :
    ArtifactState n → Prop :=
  Lts.Reachable (ArtifactState.step rt svc) G (ArtifactState.init n)

end Statements

end LegalBot
