/-
The schedule rows and their entries in redbeat, statement by statement:
what `SchedulingService` does in a transaction of its caller, and what
`rebuild_redbeat_from_db` does next to it.

# A transaction

An `INSERT` or an `UPDATE` by id is flushed, and then the entry of the
row is saved or deleted in Redis (`mirror`); a failure of that is logged
and forgotten. The row is locked from its flush to the end of the
transaction, so no other one has it (`pending`). The transaction commits
or is aborted; Redis does not take part in that. An `UPDATE` that finds
no row locks nothing, and the entry is deleted nonetheless (`missed`).

# A rebuild

Its `SELECT` is one step (`sweep`), and it saves the entries of the rows
it found one by one, with no lock (`register`). It deletes none.
-/
import LegalBot.Lib.System
import LegalBot.Scheduling.Service

namespace LegalBot.Redbeat

open Relational (HasKey Table)

-- ==================================================================== states

/-- A row that a transaction has inserted or updated. `wrote` is what it
has last said in redbeat: whether there is to be an entry. -/
structure Pending where
  tx : Nat
  row : ScheduledJob
  wrote : Option Bool
  due : Bool  -- the entry is to be written
  deriving DecidableEq

instance : HasKey Pending Uuid := ⟨fun p => p.row.id⟩

/-- The two stores, the open transactions and the rebuilds under way. -/
structure State where
  schedules : Table ScheduledJob
  entries : Finset Uuid
  pending : Table Pending
  sweeps : Nat → List Uuid

def State.init : State :=
  { schedules := .empty, entries := ∅, pending := .empty
    sweeps := fun _ => [] }

/-- The `UPDATE`s of `pause`, `resume`, `cancel` and `expire_one_shot`. -/
inductive Change where
  | pause | resume | cancel | expire
  deriving DecidableEq, Repr

def Change.status : Change → ScheduledJobStatus
  | .pause => .paused
  | .resume => .active
  | .cancel => .cancelled
  | .expire => .expired

/-- What may happen next; `tx` and `w` are transactions and rebuilds. -/
inductive Action where
  | schedule (tx : Nat) (row : ScheduledJob)
  | update (tx : Nat) (id : Uuid) (change : Change)
  | missed (id : Uuid) (change : Change) (ok : Bool)
  | mirror (tx : Nat) (id : Uuid) (ok : Bool)
  | commit (tx : Nat)
  | abort (tx : Nat)
  | sweep (w : Nat)
  | register (w : Nat) (ok : Bool)
  | stop (w : Nat)

-- ===================================================================== steps

/-- The row is active. -/
def isActive (row : ScheduledJob) : Bool := row.status = .active

/-- The transaction is between two calls of the service. -/
def State.ready (s : State) (tx : Nat) : Bool :=
  s.pending.rows.all fun p => p.tx = tx → !p.due

/-- `_register_redbeat` or `_remove_redbeat`. -/
def writeEntry (entries : Finset Uuid) (id : Uuid) (saved ok : Bool) :
    Finset Uuid :=
  if ok then if saved then insert id entries else entries.erase id
  else entries

/-- A row that a commit stores: a new one, or one with its status. -/
def storePending (t : Table ScheduledJob) (p : Pending) :
    Table ScheduledJob :=
  match t.insert p.row with
  | some t' => t'
  | none => setScheduledStatus t p.row.id p.row.status

/-- The rows that a transaction has locked, and those that others have. -/
def State.lockedBy (s : State) (tx : Nat) : List Pending :=
  s.pending.rows.filter fun p => p.tx = tx

def State.unlock (s : State) (tx : Nat) : Table Pending :=
  ⟨s.pending.rows.filter fun p => p.tx ≠ tx,
    s.pending.nodup.sublist (List.Sublist.map _ List.filter_sublist)⟩

/-- The rows of the `SELECT` of a rebuild. -/
def State.activeIds (s : State) : List Uuid :=
  (s.schedules.rows.filter isActive).map (·.id)

/-- Take one step, or `none` when it is not enabled. -/
def apply (a : Action) (s : State) : Option State :=
  match a with
  | .schedule tx row =>
      if s.ready tx ∧ row.kind ∈ jobKindRegistry ∧ row.status = .active
          ∧ s.schedules.get row.id = none then
        (s.pending.insert ⟨tx, row, none, true⟩).map fun pending =>
          { s with pending := pending }
      else none
  | .update tx id change =>
      if s.ready tx then
        match s.pending.get id, s.schedules.get id with
        | some p, _ =>
            if p.tx = tx then
              some { s with
                pending := s.pending.updateWhere (fun p => p.row.id = id)
                  fun p => { p with
                    row := { p.row with status := change.status }
                    due := true } }
            else none  -- it waits for the lock
        | none, some row =>
            (s.pending.insert
              ⟨tx, { row with status := change.status }, none, true⟩).map
              fun pending => { s with pending := pending }
        | none, none => none
      else none
  | .missed id change ok =>
      if s.schedules.get id = none ∧ change ≠ .resume then
        some { s with entries := writeEntry s.entries id false ok }
      else none
  | .mirror tx id ok =>
      match s.pending.get id with
      | some p =>
          if p.tx = tx ∧ p.due then
            some { s with
              entries := writeEntry s.entries id (isActive p.row) ok
              pending := s.pending.updateWhere (fun p => p.row.id = id)
                fun p => { p with
                  wrote := if ok then some (isActive p.row) else p.wrote
                  due := false } }
          else none
      | none => none
  | .commit tx =>
      if s.ready tx then
        some { s with
          schedules := (s.lockedBy tx).foldl storePending s.schedules
          pending := s.unlock tx }
      else none
  | .abort tx => some { s with pending := s.unlock tx }
  | .sweep w =>
      some { s with sweeps := Function.update s.sweeps w s.activeIds }
  | .register w ok =>
      match s.sweeps w with
      | id :: rest =>
          some { s with
            entries := writeEntry s.entries id true ok
            sweeps := Function.update s.sweeps w rest }
      | [] => none
  | .stop w => some { s with sweeps := Function.update s.sweeps w [] }

/-- The states of a deployment. -/
abbrev Reaches (G : Action → State → Prop) : State → Prop :=
  Lts.Reachable apply G .init

end LegalBot.Redbeat
