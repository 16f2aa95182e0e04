/-
`artifacts/models.py`: the refs of a state's `artifact_index` and the
reducer of that channel.

A dict is the list of its entries. The keys of an update that is a dict
are not looked at, only its values.
-/
import LegalBot.Db.Types
import LegalBot.Json
import LegalBot.Lib.LatestWins
import Mathlib.Data.Int.Order.Basic

namespace LegalBot.Index

/-- `ArtifactRef`, as the class declares it; `LegalBot.ArtifactRef` is the
one that `write` returns. -/
structure ArtifactRef where
  id : Uuid
  key : String
  version : Int
  kind : String
  mime : String
  sizeBytes : Int
  storage : String
  summary : Option String
  metadata : List (String × Json)
  deriving DecidableEq

/-- `dict[str, ArtifactRef]`. -/
abbrev ArtifactIndex := List (String × ArtifactRef)

/-- An update that is not `None`. -/
inductive IndexUpdate where
  | dict (refs : ArtifactIndex)
  | list (refs : List ArtifactRef)
  deriving DecidableEq

/-- The refs of an update, in order. -/
def IndexUpdate.items : IndexUpdate → List ArtifactRef
  | .dict refs => refs.map Prod.snd
  | .list refs => refs

/-- One round of the loop: `prior is None or ref.version >=
prior.version`. -/
def upsertRef (result : ArtifactIndex) (ref : ArtifactRef) :
    ArtifactIndex :=
  LatestWins.put ArtifactRef.key ArtifactRef.version result ref

/-- `artifact_index_reducer`. -/
def artifactIndexReducer (current : Option ArtifactIndex)
    (update : Option IndexUpdate) : ArtifactIndex :=
  match update with
  | none => current.getD []
  | some update => update.items.foldl upsertRef (current.getD [])

/-- The channel after some updates. -/
def indexAfter (current : Option ArtifactIndex)
    (updates : List (Option IndexUpdate)) : ArtifactIndex :=
  (updates.foldl (fun index u => some (artifactIndexReducer index u))
    current).getD []

end LegalBot.Index
