/-
`InterruptService` on the database: `open`, `current_for_session`,
`resolve` and `expire_stalled`.

# Two ways to leave pending

`expire_stalled` is one guarded `UPDATE … WHERE status = 'pending'`: it
re-checks the status under the row lock. `resolve` is a read followed by
an `UPDATE … WHERE id = …`: what it writes does not depend on the status
the row has by then. `resolve` below is that second half, on the row the
first half read.
-/
import LegalBot.Interrupts.Resolution
import LegalBot.Services.Session

namespace LegalBot

open Relational (HasKey Table)

-- ==================================================================== open

/-- The row `open` inserts; a ttl of zero never expires. -/
def newInterrupt (cfg : Settings) (id sessionId : Uuid)
    (runId : Option Uuid) (kind : InterruptKind) (payload : Json)
    (schema : Option Json) (ttlSec : Option Int) (now : Time) :
    InterruptRequest :=
  let ttl := ttlSec.getD cfg.interruptTtlSec
  { id := id, sessionId := sessionId, runId := runId, kind := kind
    payload := payload, schema := schema, status := .pending
    resolution := none, resolvedBy := none, resolvedAt := none
    createdAt := now
    expiresAt := if ttl = 0 then none else some (now + ttl) }

/-- `open`: the row and the session's pointer to it. -/
def openInterrupt (db : Db) (request : InterruptRequest) : Option Db :=
  (db.interrupts.insert request).map fun interrupts =>
    { db with
      interrupts := interrupts
      sessions := db.sessions.updateWhere
        (fun r => r.id = request.sessionId)
        fun r =>
          { r with
            status := .awaitingHuman
            interruptKind := some request.kind
            activeInterruptId := some request.id } }

-- ==================================================== current_for_session

/-- `ORDER BY created_at DESC LIMIT 1`, the first row of a tie. -/
def latestCreated : List InterruptRequest → Option InterruptRequest
  | [] => none
  | r :: rest =>
      match latestCreated rest with
      | none => some r
      | some b => if r.createdAt < b.createdAt then some b else some r

/-- `current_for_session`: the latest pending row of a session. -/
def currentForSession (interrupts : Table InterruptRequest)
    (sessionId : Uuid) : Option InterruptRequest :=
  latestCreated (interrupts.rows.filter fun r =>
    r.sessionId = sessionId ∧ r.status = .pending)

-- ================================================================= resolve

/-- The statements of `resolve` that follow its checks and its artifact
edits: the row is updated by id alone. -/
def resolve (db : Db) (now : Time) (sessionId : Uuid)
    (current : InterruptRequest) (resolution : InterruptResolution)
    (resolvedBy : Option String) (interventionId : Uuid) : Option Db :=
  (db.interventions.insert
    { id := interventionId, interruptRequestId := current.id
      runId := current.runId, decision := decisionLabel resolution
      editedPayload := resolution.modelDump
      decidedBy := resolvedBy }).map fun interventions =>
    { db with
      interrupts := db.interrupts.updateWhere (fun r => r.id = current.id)
        fun r =>
          { r with
            status := .resolved
            resolution := some resolution.modelDump
            resolvedBy := resolvedBy
            resolvedAt := some now }
      interventions := interventions
      sessions := db.sessions.updateWhere (fun r => r.id = sessionId)
        fun r =>
          { r with
            status := .running
            interruptKind := none
            activeInterruptId := none } }

-- ========================================================== expire_stalled

/-- The predicate of the expiry `UPDATE`. -/
def isStalled (now : Time) (r : InterruptRequest) : Bool :=
  r.status = .pending ∧ expiredBefore r.expiresAt now

/-- `expire_stalled`: the stalled rows expire and their sessions fail. -/
def expireStalled (db : Db) (now : Time) : Db :=
  let rows := db.interrupts.rows.filter (isStalled now)
  { db with
    interrupts := db.interrupts.updateWhere (isStalled now)
      fun r => { r with status := .expired }
    sessions := db.sessions.updateWhere
      (fun s => s.id ∈ rows.map (·.sessionId))
      fun s =>
        { s with
          status := .failed
          interruptKind := none
          activeInterruptId := none } }

-- ================================================================== lookups

theorem latestCreated_mem {l : List InterruptRequest}
    {r : InterruptRequest} (h : latestCreated l = some r) : r ∈ l := by
  induction l generalizing r with
  | nil => cases h
  | cons a rest ih =>
      unfold latestCreated at h
      cases hb : latestCreated rest with
      | none =>
          rw [hb] at h
          injection h with h
          exact h ▸ List.mem_cons_self
      | some b =>
          rw [hb] at h
          simp only at h
          split at h
          · injection h with h
            exact List.mem_cons_of_mem a (ih (h ▸ hb))
          · injection h with h
            exact h ▸ List.mem_cons_self

theorem latestCreated_eq_none {l : List InterruptRequest} :
    latestCreated l = none ↔ l = [] := by
  cases l with
  | nil => exact ⟨fun _ => rfl, fun _ => rfl⟩
  | cons r rest =>
      unfold latestCreated
      cases latestCreated rest with
      | none => simp
      | some b =>
          simp only
          split
          · simp
          · simp

/-- Nothing is current exactly when no row of the session is pending. -/
theorem currentForSession_none {interrupts : Table InterruptRequest}
    {sid : Uuid} :
    currentForSession interrupts sid = none
      ↔ ∀ k r, interrupts.get k = some r → r.sessionId = sid →
        r.status ≠ .pending := by
  unfold currentForSession
  rw [latestCreated_eq_none, List.filter_eq_nil_iff]
  constructor
  · intro h k r hr hsid hst
    exact h r (Table.get_some hr).1 (by simp [hsid, hst])
  · intro h r hr hp
    have hcols : r.sessionId = sid ∧ r.status = .pending := by
      simpa using hp
    exact h r.id r (Table.get_of_mem hr) hcols.1 hcols.2

/-- The current interrupt is a pending row of the session. -/
theorem currentForSession_some {interrupts : Table InterruptRequest}
    {sid : Uuid} {r : InterruptRequest}
    (h : currentForSession interrupts sid = some r) :
    interrupts.get r.id = some r ∧ r.sessionId = sid
      ∧ r.status = .pending := by
  have hmem := List.mem_filter.mp (latestCreated_mem h)
  have hcols : r.sessionId = sid ∧ r.status = .pending := by
    simpa using hmem.2
  exact ⟨Table.get_of_mem hmem.1, hcols⟩

end LegalBot
