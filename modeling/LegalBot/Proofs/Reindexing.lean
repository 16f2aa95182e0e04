/-
Indexing twice.

# The tables

Rows of all four tables have ids of their own, so a table is a multiset:
`SameTables` compares up to order. Entities, aliases and edges are
upserted by unique keys. Mentions are not: nothing looks for one before
it is added.

# When a second call changes nothing

A call that raises or refuses leaves the graph alone, and so does its
repetition. One that completes adds the mention of the item, whatever
else it does (`Indexed.mentions`), and what it needed to complete it
leaves in place (`RunIndexed.keeps`), so the second call completes and
adds that mention again.
-/
import LegalBot.Memory.Histories

namespace LegalBot.Memory

open Programs

-- ============================================================== statements

/-- The same rows in the four tables. -/
def SameTables (g g' : Graph) : Prop :=
  g.entities.Perm g'.entities ∧ g.aliases.Perm g'.aliases
    ∧ g.edges.Perm g'.edges ∧ g.mentions.Perm g'.mentions

instance (g g' : Graph) : Decidable (SameTables g g') := by
  unfold SameTables
  infer_instance

/-- The second call leaves what the first left. -/
def Repeatable {α : Type} (call : GraphM α) (g : Graph) : Prop :=
  SameTables (committed call (committed call g)) (committed call g)

/-- The item is there, and its parent is looked up without an error. -/
def ItemCompletes (src : Sources) (itemId : Uuid) : Prop :=
  ∃ item parent, src.items.get itemId = some item
    ∧ parentItem src item = .ok parent

/-- The run is one to index, its item's parent and its artifacts are read
without an error, and no row of another type has the key of the item or
of an attachment an edge starts from. -/
def RunCompletes (env : GraphEnv) (src : Sources) (g : Graph)
    (runId : Uuid) (reply : Option (List LlmExtractedEntity)) : Prop :=
  ∃ run item, runTarget src runId = .ok (run, item)
    ∧ RunReady env src g run item reply

-- =================================================================== calls

section Calls

variable {env : GraphEnv} {src : Sources} {g : Graph}
  {itemId runId : Uuid} {reply : Option (List LlmExtractedEntity)}

theorem same_refl : SameTables g g := ⟨.refl _, .refl _, .refl _, .refl _⟩

/-- A call that changes nothing. -/
theorem repeatable_of_same {α : Type} {call : GraphM α}
    (h : committed call g = g) : Repeatable call g := by
  unfold Repeatable
  rw [h, h]
  exact same_refl

/-- Two calls that both add mentions. -/
theorem not_repeatable {α : Type} {call : GraphM α}
    (h : (committed call g).mentions.length
      < (committed call (committed call g)).mentions.length) :
    ¬ Repeatable call g := by
  rintro ⟨-, -, -, hmentions⟩
  exact absurd hmentions.length_eq (by omega)

/-- An item that completes adds a mention, and completes again. -/
theorem item_longer (h : g.Valid env) (hdone : ItemCompletes src itemId) :
    g.mentions.length
        < (committed (indexIngestionItem env src itemId) g).mentions.length
      ∧ (committed (indexIngestionItem env src itemId) g).Valid env := by
  obtain ⟨item, parent, hitem, hparent⟩ := hdone
  unfold indexIngestionItem
  rw [hitem]
  obtain ⟨_, -, email, g₁, g₂, hindexed, -⟩ :=
    committed_of_wp (indexItem_wp h hparent)
  exact ⟨hindexed.mentions h, (hindexed.writes h).valid h⟩

theorem item_same (h : g.Valid env) (hnot : ¬ ItemCompletes src itemId) :
    committed (indexIngestionItem env src itemId) g = g := by
  refine (item_committed h).resolve_right ?_
  rintro ⟨item, parent, email, g₁, g₂, hitem, hparent, -⟩
  exact hnot ⟨item, parent, hitem, hparent⟩

/-- What a run needed it leaves in place. -/
theorem RunIndexed.keeps {run : Run} {item : IngestionItem}
    {projection : GraphProjection} {row : KgEntity} {g₁ g' : Graph}
    {resolved : List (ProjectionEntity × KgEntity)}
    (hi : RunIndexed env src run item reply projection row g g₁ g'
      resolved) (h : g.Valid env) :
    RunReady env src g' run item reply := by
  have htyped := ((hi.before h).mono item_typed).trans
    ((hi.after h).1.mono
      (run_typed (runProjection_plain projection hi.projected)))
  obtain ⟨parent, projection', hparent, hshared, hproj, halone⟩ :=
    hi.ready h
  exact ⟨parent, projection', hparent,
    mt (htyped.shared_iff emailKey_reserved).mp hshared, hproj,
    htyped.unambiguous_iff.mpr halone⟩

/-- A run that completes adds a mention, and completes again. -/
theorem run_longer (h : g.Valid env)
    (hdone : RunCompletes env src g runId reply) :
    g.mentions.length
        < (committed (indexRun env src runId reply) g).mentions.length
      ∧ (committed (indexRun env src runId reply) g).Valid env
      ∧ RunCompletes env src
        (committed (indexRun env src runId reply) g) runId reply := by
  obtain ⟨run, item, htarget, hready⟩ := hdone
  unfold indexRun RunCompletes
  rw [htarget]
  obtain ⟨r, -, -, projection, row, g₁, hi⟩ := committed_of_wp
    ((indexRunOf_wp h hready).of_wlp (indexRunOf_wlp h))
  obtain ⟨parent, email, ga, gb, -, hindexed⟩ := hi.indexed
  have hwrites := (hi.after h).1
  refine ⟨(hindexed.mentions h).trans_le hwrites.mentions.length_le,
    hwrites.valid ((hi.before h).valid h), run, item, rfl, hi.keeps h⟩

theorem run_same (h : g.Valid env)
    (hnot : ¬ RunCompletes env src g runId reply) :
    committed (indexRun env src runId reply) g = g := by
  refine (run_committed h).resolve_right ?_
  rintro ⟨run, item, r, projection, row, g₁, htarget, -, hi⟩
  exact hnot ⟨run, item, htarget, hi.ready h⟩

end Calls

-- ============================================================= idempotence

/-- Indexing is idempotent where it does nothing: for an item that is not
there or whose parent lookup raises, and for a run that is none to index
or whose indexing raises. The model's reply, if it is asked, is the same
both times. -/
theorem reindexing_idempotent_iff (env : GraphEnv) (src : Sources)
    {g : Graph} (h : g.Valid env) :
    (∀ itemId, Repeatable (indexIngestionItem env src itemId) g
      ↔ ¬ ItemCompletes src itemId)
    ∧ ∀ runId reply, Repeatable (indexRun env src runId reply) g
      ↔ ¬ RunCompletes env src g runId reply := by
  constructor
  · intro itemId
    constructor
    · intro hrep hdone
      obtain ⟨-, hvalid⟩ := item_longer h hdone
      exact not_repeatable (item_longer hvalid hdone).1 hrep
    · exact fun hnot => repeatable_of_same (item_same h hnot)
  · intro runId reply
    constructor
    · intro hrep hdone
      obtain ⟨-, hvalid, hagain⟩ := run_longer h hdone
      exact not_repeatable (run_longer hvalid hagain).1 hrep
    · exact fun hnot => repeatable_of_same (run_same h hnot)

/-- One message. -/
def Sources.oneItem : Sources :=
  { Sources.empty with
    items := ⟨[.sample 1 "u1" none none], by decide⟩ }

/-- On a message without a parent, or with no run. -/
theorem reindexing_one_item :
    ¬ Repeatable (indexIngestionItem (.sample false) .oneItem 1) .empty
      ∧ Repeatable (indexRun (.sample false) .oneItem 1 none) .empty := by
  have hiff := reindexing_idempotent_iff (.sample false) .oneItem
    (g := .empty) empty_valid
  refine ⟨fun hrep => (hiff.1 1).mp hrep
    ⟨.sample 1 "u1" none none, none, rfl, rfl⟩, (hiff.2 1 none).mpr ?_⟩
  rintro ⟨run, item, htarget, -⟩
  cases htarget

/-- The second call mentions the message and its sender again. -/
theorem reindexed_mentions_twice :
    ¬ SameTables
      (committed (indexIngestionItem (.sample false) .oneItem 1)
        (committed (indexIngestionItem (.sample false) .oneItem 1)
          .empty))
      (committed (indexIngestionItem (.sample false) .oneItem 1)
        .empty) := by
  decide +kernel

end LegalBot.Memory
