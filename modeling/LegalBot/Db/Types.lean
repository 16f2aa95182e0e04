/-
The enumerations of `db/types.py` that the modelled services read or
write. Each is a `StrEnum` mapped to a text column; every value the code
stores in such a column is a member, so a column is the enumeration
itself.
-/
import Mathlib.Tactic.Common

namespace LegalBot

/-- Identifiers are `uuid4` values; only their distinctness is used. -/
abbrev Uuid := Nat

/-- Timestamps, in seconds; differences may be negative. -/
abbrev Time := Int

/-- `JobState`: the states of a `processing_job`. -/
inductive JobState where
  | intake | ready | dispatched | processing | awaitingHuman
  | completed | failed | archived
  deriving DecidableEq, Repr

/-- `SessionKind`. -/
inductive SessionKind where
  | primary | replay
  deriving DecidableEq, Repr

/-- `SessionStatus`. -/
inductive SessionStatus where
  | idle | running | awaitingHuman | archived | failed
  deriving DecidableEq, Repr

/-- `InterruptKind`. -/
inductive InterruptKind where
  | toolApproval | informationRequest | reviewDraft
  deriving DecidableEq, Repr

/-- `InterruptStatus`. -/
inductive InterruptStatus where
  | pending | resolved | expired | cancelled
  deriving DecidableEq, Repr

/-- `RunKind`. -/
inductive RunKind where
  | pipeline | userFollowup | scheduled
  deriving DecidableEq, Repr

/-- `RunStatus`. -/
inductive RunStatus where
  | running | completed | awaitingHuman | failed | cancelled
  deriving DecidableEq, Repr

/-- `ScheduledJobStatus`. -/
inductive ScheduledJobStatus where
  | active | paused | cancelled | expired
  deriving DecidableEq, Repr

/-- `ScheduledJobScheduleKind`. -/
inductive ScheduledJobScheduleKind where
  | oneShot | cron | interval
  deriving DecidableEq, Repr

/-- `ArtifactStorage`: where an artifact row keeps its payload. -/
inductive ArtifactStorage where
  | inline | blob
  deriving DecidableEq, Repr

end LegalBot
