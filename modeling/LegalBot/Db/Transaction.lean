/-
Transactions: what makes one raise, and the three ways a statement hands
its result to the code that follows it.

A transaction is a function from the committed database to `Except
TxError`: `ok` is the database after its commit, `error` means that it
raised and rolled back, so the committed database is the one before.
-/
import LegalBot.Db.Models

namespace LegalBot

/-- Why a transaction raised. `invalidJobTransition` carries `str(exc)`;
the driver's own texts are not modelled. -/
inductive TxError where
  | invalidJobTransition (message : String)
  | noResultFound
  | integrityError
  deriving DecidableEq, Repr

/-- `str(exc)`. -/
def TxError.message : TxError → String
  | .invalidJobTransition message => message
  | .noResultFound => "No row was found when one was required"
  | .integrityError => "IntegrityError"

/-- `result.scalar_one()`. -/
def scalarOne {α : Type} (row : Option α) : Except TxError α :=
  match row with
  | some a => .ok a
  | none => .error .noResultFound

/-- `db.add(row)` and `db.flush()`: an insert can only violate a key. -/
def flushed {α : Type} (table : Option α) : Except TxError α :=
  match table with
  | some t => .ok t
  | none => .error .integrityError

section Rules

variable {ε α β : Type}

@[simp] theorem scalarOne_ok {row : Option α} {a : α} :
    scalarOne row = .ok a ↔ row = some a := by
  cases row <;> simp [scalarOne]

@[simp] theorem flushed_ok {table : Option α} {a : α} :
    flushed table = .ok a ↔ table = some a := by
  cases table <;> simp [flushed]

/-- A sequence of statements commits when each of them did. -/
theorem bind_ok {x : Except ε α} {f : α → Except ε β} {b : β} :
    (x >>= f) = .ok b ↔ ∃ a, x = .ok a ∧ f a = .ok b := by
  cases x with
  | error e => simp [Bind.bind, Except.bind]
  | ok a => simp [Bind.bind, Except.bind]

theorem toOption_some {x : Except ε α} {a : α} :
    x.toOption = some a ↔ x = .ok a := by
  cases x with
  | error e => simp [Except.toOption]
  | ok b => simp [Except.toOption]

theorem pure_ok {a b : α} : (pure a : Except ε α) = .ok b ↔ a = b := by
  simp [pure, Except.pure]

end Rules

end LegalBot
