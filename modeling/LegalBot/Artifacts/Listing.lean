/-
`ArtifactService.list` and `diff`, and the routes over them.

Keys are ordered by the collation of the database, a parameter. So is
`make_patch` of `jsonpatch`.
-/
import LegalBot.Artifacts.Service

namespace LegalBot

-- ====================================================================== list

/-- `if kind`: an empty kind counts as none. -/
def wantsKind (kind : Option String) (r : Artifact) : Bool :=
  match kind with
  | some k => k = "" ∨ r.kind = k
  | none => true

/-- The `WHERE` of `list`. -/
def listMatches (sessionId : Uuid) (kind : Option String)
    (includeVersions : Bool) (r : Artifact) : Bool :=
  r.sessionId = sessionId ∧ wantsKind kind r
    ∧ (includeVersions ∨ r.isLatest)

/-- `ORDER BY key, version DESC`. -/
def ListedBefore (before : String → String → Prop) (r r' : Artifact) :
    Prop :=
  if r.key = r'.key then r'.version ≤ r.version else before r.key r'.key

instance (before : String → String → Prop) [DecidableRel before] :
    DecidableRel (ListedBefore before) := fun r r' =>
  inferInstanceAs (Decidable (if r.key = r'.key then
    r'.version ≤ r.version else before r.key r'.key))

/-- `list`. -/
def listRows (before : String → String → Prop) [DecidableRel before]
    (rows : List Artifact) (sessionId : Uuid) (kind : Option String)
    (includeVersions : Bool) : List Artifact :=
  (rows.filter (listMatches sessionId kind includeVersions)).insertionSort
    (ListedBefore before)

-- ====================================================================== diff

/-- `diff`: the operations that make the content of the second version
out of that of the first. -/
def diff {Patch : Type} (rt : Runtime)
    (makePatch : Content → Content → Patch) (rows : List Artifact)
    (blobs : Blobs) (sessionId : Uuid) (key : String) (v₁ v₂ : Nat) :
    Except ArtifactError Patch := do
  let (_, a) ← read rt rows blobs sessionId (.key key) (some v₁)
  let (_, b) ← read rt rows blobs sessionId (.key key) (some v₂)
  return makePatch a b

end LegalBot
