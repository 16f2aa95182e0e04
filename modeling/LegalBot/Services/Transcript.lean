/-
The transcript of a session, statement by statement: writers that run
`append_message` and `post_system_message` in transactions of their own,
and readers that page with `list_messages`.

# The statements of an append

The sessions of the code do not autoflush, so an append is, in this
order: the `SELECT max(message_index)`, which sees the committed rows
and the transaction's own; the `UPDATE` of the counter, which locks the
row of the session until the transaction ends; and the `INSERT` at the
flush, which checks the foreign key and `uq_session_message_idx`. An
insert whose key is held by a transaction in progress waits for it; one
whose key is committed, or its own, raises, and the transaction is
rolled back.

A transaction may make any number of appends, on any sessions, and may
be rolled back at any point (an exception, a crash, a deadlock).
-/
import LegalBot.Lib.Numbered
import LegalBot.Lib.System
import LegalBot.Services.Session

namespace LegalBot

open Relational (HasKey Table)

-- ================================================================= reading

/-- The rows of a session, in table order. -/
def sessionRows (rows : List SessionMessage) (sid : Uuid) :
    List SessionMessage :=
  rows.filter fun m => m.sessionId = sid

/-- `ORDER BY message_index`. -/
def orderByIndex (rows : List SessionMessage) : List SessionMessage :=
  rows.insertionSort fun a b => a.messageIndex ≤ b.messageIndex

/-- `list_messages`. -/
def listMessages (rows : List SessionMessage) (sid : Uuid)
    (afterIndex : Option Int) (limit : Nat) : List SessionMessage :=
  (orderByIndex ((sessionRows rows sid).filter fun m =>
    match afterIndex with
    | some i => i < m.messageIndex
    | none => true)).take limit

/-- The whole transcript of a session. -/
def transcript (rows : List SessionMessage) (sid : Uuid) :
    List SessionMessage := orderByIndex (sessionRows rows sid)

/-- `_next_message_index` on the rows its statement sees. -/
def nextIndexOf (rows : List SessionMessage) (sid : Uuid) : Int :=
  ((sessionRows rows sid).map (·.messageIndex)).foldl max (-1) + 1

theorem nextMessageIndex_eq (messages : Table SessionMessage)
    (sid : Uuid) :
    nextMessageIndex messages sid = nextIndexOf messages.rows sid := rfl

/-- The rows of a session are numbered in table order. -/
abbrev RowsNumbered (rows : List SessionMessage) (sid : Uuid) : Prop :=
  Numbered.FromZero SessionMessage.messageIndex (sessionRows rows sid)

theorem sessionRows_append (rows rows' : List SessionMessage)
    (sid : Uuid) : sessionRows (rows ++ rows') sid
      = sessionRows rows sid ++ sessionRows rows' sid :=
  List.filter_append ..

theorem transcript_eq {rows : List SessionMessage} {sid : Uuid}
    (h : RowsNumbered rows sid) :
    transcript rows sid = sessionRows rows sid :=
  Numbered.insertionSort_eq h

theorem nextIndexOf_eq {rows : List SessionMessage} {sid : Uuid}
    (h : RowsNumbered rows sid) :
    nextIndexOf rows sid = (sessionRows rows sid).length :=
  Numbered.foldl_max h

/-- A page after the first `k` rows starts at the next one. -/
theorem listMessages_after {rows : List SessionMessage} {sid : Uuid}
    (h : RowsNumbered rows sid) (k limit : Nat) :
    listMessages rows sid (some (k - 1)) limit
      = ((sessionRows rows sid).drop k).take limit := by
  unfold listMessages orderByIndex
  simp only
  rw [Numbered.filter_gt h]
  refine congrArg (List.take limit) ?_
  exact Numbered.insertionSort_eq (h.drop k)

namespace Transcript

-- ============================================================= the writers

/-- How far a transaction is in an append: before it, after the `SELECT`
of the index, after the `UPDATE` of the counter, and after one that
matched no session. -/
inductive Append
  | idle
  | indexed (row : SessionMessage)
  | counted (row : SessionMessage)
  | orphan (row : SessionMessage)
  deriving DecidableEq, Repr

/-- The row an append is about to insert. -/
def Append.row : Append → Option SessionMessage
  | .idle => none
  | .indexed row => some row
  | .counted row => some row
  | .orphan row => some row

/-- A connection: the rows its transaction has inserted, the counters it
has updated, each a lock on a session, and the append it is in. -/
structure Writer where
  rows : List SessionMessage
  counted : List (Uuid × Time)
  append : Append
  deriving DecidableEq, Repr

/-- A connection with no transaction. -/
def Writer.fresh : Writer := { rows := [], counted := [], append := .idle }

/-- The sessions whose rows the transaction has locked. -/
def Writer.locks (wr : Writer) : List Uuid := wr.counted.map Prod.fst

/-- The committed rows, `n` connections, and for each stream of a session
what it has sent. -/
structure State (n : Nat) where
  sessions : Table Session
  messages : List SessionMessage
  writers : Fin n → Writer
  seen : Nat → Uuid → List SessionMessage

/-- An empty database. -/
def init (n : Nat) : State n :=
  { sessions := .empty, messages := []
    writers := fun _ => .fresh, seen := fun _ _ => [] }

inductive Action (n : Nat)
  | createPrimary (job : ProcessingJob) (id : Uuid) (hex : String)
      (now : Time)
  | createReplay (parent : Session) (branchFromRunId : Uuid)
      (branchFromCheckpointId : String) (id : Uuid) (hex : String)
      (now : Time)
  | appendMessage (w : Fin n) (id sid : Uuid) (role content : String)
      (runId : Option Uuid)
  | postSystemMessage (w : Fin n) (id sid : Uuid) (content : String)
  | update (w : Fin n) (now : Time)
  | insert (w : Fin n)
  | commit (w : Fin n)
  | rollback (w : Fin n)
  | read (stream : Nat) (sid : Uuid) (limit : Nat)

variable {n : Nat}

def State.setWriter (s : State n) (w : Fin n) (wr : Writer) : State n :=
  { s with writers := Function.update s.writers w wr }

@[simp] theorem setWriter_self (s : State n) (w : Fin n) (wr : Writer) :
    (s.setWriter w wr).writers w = wr := Function.update_self ..

theorem setWriter_of_ne (s : State n) {v w : Fin n} (hv : v ≠ w)
    (wr : Writer) : (s.setWriter w wr).writers v = s.writers v :=
  Function.update_of_ne hv ..

@[simp] theorem setWriter_setWriter (s : State n) (w : Fin n)
    (wr wr' : Writer) :
    (s.setWriter w wr).setWriter w wr' = s.setWriter w wr' := by
  simp [State.setWriter]

@[simp] theorem setWriter_messages (s : State n) (w : Fin n)
    (wr : Writer) : (s.setWriter w wr).messages = s.messages := rfl

@[simp] theorem setWriter_sessions (s : State n) (w : Fin n)
    (wr : Writer) : (s.setWriter w wr).sessions = s.sessions := rfl

/-- A committed `create_primary` or `create_replay`. -/
def createSession (s : State n) (row : Session) : Option (State n) :=
  (s.sessions.insert row).map fun sessions =>
    { s with sessions := sessions }

/-- The `SELECT` of an append, on the committed rows and the
transaction's own. -/
def selectIndex (s : State n) (w : Fin n) (id sid : Uuid)
    (role content : String) (runId : Option Uuid) : Option (State n) :=
  match (s.writers w).append with
  | .idle =>
      some (s.setWriter w
        { s.writers w with
          append := .indexed
            { id := id, sessionId := sid, runId := runId, role := role
              content := content
              messageIndex :=
                nextIndexOf (s.messages ++ (s.writers w).rows) sid } })
  | _ => none

/-- The `UPDATE` of an append. It waits for a transaction that has
updated the same session. -/
def updateCounter (s : State n) (w : Fin n) (now : Time) :
    Option (State n) :=
  match (s.writers w).append with
  | .indexed row =>
      if ∃ v, v ≠ w ∧ row.sessionId ∈ (s.writers v).locks then none
      else if (s.sessions.get row.sessionId).isSome then
        some (s.setWriter w
          { s.writers w with
            counted := (s.writers w).counted ++ [(row.sessionId, now)]
            append := .counted row })
      else some (s.setWriter w { s.writers w with append := .orphan row })
  | _ => none

/-- Two rows that the primary key or `uq_session_message_idx` keeps
apart. -/
def Clash (m row : SessionMessage) : Prop :=
  m.id = row.id ∨
    m.sessionId = row.sessionId ∧ m.messageIndex = row.messageIndex

instance (m row : SessionMessage) : Decidable (Clash m row) :=
  inferInstanceAs (Decidable (_ ∨ _))

/-- The `INSERT` of an append, at the flush. -/
def insertRow (s : State n) (w : Fin n) : Option (State n) :=
  match (s.writers w).append with
  | .counted row =>
      -- the keys of a transaction in progress are waited for
      if ∃ v, v ≠ w ∧ ∃ m ∈ (s.writers v).rows, Clash m row then none
      else if ∃ m ∈ s.messages ++ (s.writers w).rows, Clash m row then
        some (s.setWriter w .fresh)
      else
        some (s.setWriter w
          { s.writers w with
            rows := (s.writers w).rows ++ [row], append := .idle })
  -- the foreign key fails
  | .orphan _ => some (s.setWriter w .fresh)
  | _ => none

/-- `message_count = message_count + 1`, `last_activity_at = now`. -/
def bump (sessions : Table Session) (counter : Uuid × Time) :
    Table Session :=
  sessions.updateWhere (fun r => r.id = counter.1) fun r =>
    { r with
      messageCount := r.messageCount + 1
      lastActivityAt := some counter.2 }

/-- What the transaction wrote becomes visible. -/
def commit (s : State n) (w : Fin n) : Option (State n) :=
  match (s.writers w).append with
  | .idle =>
      some { s with
        sessions := (s.writers w).counted.foldl bump s.sessions
        messages := s.messages ++ (s.writers w).rows
        writers := Function.update s.writers w .fresh }
  | _ => none

/-- The `after` of `stream_messages`: the index of the last row sent,
`-1` before the first. -/
def afterIndex (sent : List SessionMessage) : Int :=
  ((sent.getLast?).map (·.messageIndex)).getD (-1)

/-- One turn of the loop of `stream_messages`. -/
def read (s : State n) (stream : Nat) (sid : Uuid) (limit : Nat) :
    State n :=
  { s with
    seen := Function.update s.seen stream
      (Function.update (s.seen stream) sid
        (s.seen stream sid ++ listMessages s.messages sid
          (some (afterIndex (s.seen stream sid))) limit)) }

def step : Action n → State n → Option (State n)
  | .createPrimary job id hex now, s =>
      createSession s (createPrimary job id hex now)
  | .createReplay parent rid cid id hex now, s =>
      createSession s (createReplay parent rid cid id hex now)
  | .appendMessage w id sid role content runId, s =>
      selectIndex s w id sid role content runId
  | .postSystemMessage w id sid content, s =>
      selectIndex s w id sid "system" content none
  | .update w now, s => updateCounter s w now
  | .insert w, s => insertRow s w
  | .commit w, s => commit s w
  | .rollback w, s => some (s.setWriter w .fresh)
  | .read stream sid limit, s => some (read s stream sid limit)

end Transcript

end LegalBot
