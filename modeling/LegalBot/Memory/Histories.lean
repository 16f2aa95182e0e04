/-
What an action makes of the graph.

# Committing

A call that returns commits the graph it leaves, so what `Wp` says of it
holds of the graph after (`committed_of_wp`); of a call that may raise
`Wlp` says it, unless nothing has changed (`committed_of_wlp`).

# Actions

`item_committed` and `run_committed` are the two calls past their first
queries. Either way an action is a run of writes (`apply_writes`), so
what writes keep holds in every state reached (`reaches_invariant`).
-/
import LegalBot.Memory.Projecting

namespace LegalBot.Memory

open Programs

-- ============================================================== committing

section Committing

variable {α : Type} {call : GraphM α} {Q : α → Graph → Prop} {g : Graph}

theorem committed_of_wp (h : Wp call Q g) :
    ∃ a, call g = .ok (a, committed call g)
      ∧ Q a (committed call g) := by
  obtain ⟨a, g', hcall, hq⟩ := h
  have hg : committed call g = g' := by
    rw [committed, hcall]
  exact ⟨a, hg ▸ hcall, hg ▸ hq⟩

theorem committed_of_wlp (h : Wlp call Q g) :
    committed call g = g ∨ ∃ a, call g = .ok (a, committed call g)
      ∧ Q a (committed call g) := by
  match hcall : call g with
  | .error e =>
      left
      rw [committed, hcall]
  | .ok (a, g') =>
      right
      have hwp : Wp call Q g := ⟨a, g', hcall, h a g' hcall⟩
      have hdone := committed_of_wp hwp
      rwa [hcall] at hdone

end Committing

-- ================================================================== actions

section Actions

variable {env : GraphEnv} {g : Graph} {src : Sources} {itemId runId : Uuid}
  {reply : Option (List LlmExtractedEntity)}

/-- Indexing an item: nothing, or all of it. -/
theorem item_committed (h : g.Valid env) :
    committed (indexIngestionItem env src itemId) g = g
      ∨ ∃ item parent email g₁ g₂, src.items.get itemId = some item
        ∧ parentItem src item = .ok parent
        ∧ Indexed env item parent g
          (committed (indexIngestionItem env src itemId) g) email g₁ g₂ :=
  by
  unfold indexIngestionItem
  cases hitem : src.items.get itemId with
  | none => exact Or.inl rfl
  | some item =>
      cases hparent : parentItem src item with
      | error e =>
          have hfails := committed_of_wlp
            (indexItem_error hparent : Wlp (indexItem env src item) _ g)
          refine hfails.imp_right ?_
          rintro ⟨_, _, ⟨⟩⟩
      | ok parent =>
          obtain ⟨_, -, email, g₁, g₂, hindexed, -⟩ :=
            committed_of_wp (indexItem_wp h hparent)
          exact Or.inr ⟨item, parent, email, g₁, g₂, rfl, hparent,
            hindexed⟩

/-- Indexing a run: nothing, or all of it. -/
theorem run_committed (h : g.Valid env) :
    committed (indexRun env src runId reply) g = g
      ∨ ∃ run item r projection row g₁,
        runTarget src runId = .ok (run, item)
        ∧ indexRun env src runId reply g
          = .ok (r, committed (indexRun env src runId reply) g)
        ∧ RunIndexed env src run item reply projection row g g₁
          (committed (indexRun env src runId reply) g) r.2 := by
  unfold indexRun
  cases htarget : runTarget src runId with
  | error reason => exact Or.inl rfl
  | ok target =>
      obtain ⟨run, item⟩ := target
      refine (committed_of_wlp (indexRunOf_wlp h)).imp_right ?_
      rintro ⟨r, hcall, projection, row, g₁, hindexed⟩
      exact ⟨run, item, r, projection, row, g₁, rfl, hcall, hindexed⟩

/-- Any write. -/
def AnyWrite : GraphWrite → Prop := fun _ => True

theorem Writes.any {P : GraphWrite → Prop} {g' : Graph}
    (h : Writes env P g g') : Writes env AnyWrite g g' :=
  h.mono fun _ _ => trivial

/-- An action is a run of writes. -/
theorem apply_writes {a : IndexAction} {s : GraphState}
    (h : s.graph.Valid env) :
    Writes env AnyWrite s.graph (a.apply env s).graph := by
  cases a with
  | store sources => exact .refl
  | item itemId =>
      rcases item_committed h with hsame | hdone
      · rw [IndexAction.apply, hsame]
        exact .refl
      · obtain ⟨item, parent, email, g₁, g₂, -, -, hindexed⟩ := hdone
        exact (hindexed.writes h).any
  | run runId reply =>
      rcases run_committed h with hsame | hdone
      · rw [IndexAction.apply, hsame]
        exact .refl
      · obtain ⟨run, item, r, projection, row, g₁, -, -, hindexed⟩ := hdone
        exact (hindexed.before h).any.trans (hindexed.after h).1.any

/-- A call leaves a graph that meets the constraints. -/
theorem apply_valid {a : IndexAction} {s : GraphState}
    (h : s.graph.Valid env) : (a.apply env s).graph.Valid env :=
  (apply_writes h).valid h

theorem empty_valid : Graph.empty.Valid env where
  ids := .nil
  keys := .nil
  drawn := (fun _ h => by cases h)
  aliases := .nil
  edges := .nil

theorem reaches_valid {G : IndexAction → GraphState → Prop}
    {s : GraphState} (hs : GraphReaches env G s) : s.graph.Valid env := by
  refine Lts.Reachable.invariant (P := fun s => s.graph.Valid env)
    empty_valid ?_ hs
  intro s a s' _ h _ hstep
  injection hstep with hstep
  subst hstep
  exact apply_valid h

/-- What writes keep holds in every state reached. -/
theorem reaches_invariant {G : IndexAction → GraphState → Prop}
    {I : Graph → Prop} (h₀ : I .empty)
    (hI : ∀ (g : Graph) (w : GraphWrite), g.Valid env → I g → w.Placed g →
      I (w.apply env g))
    {s : GraphState} (hs : GraphReaches env G s) : I s.graph := by
  refine Lts.Reachable.invariant (P := fun s => I s.graph) h₀ ?_ hs
  intro s a s' hr h _ hstep
  injection hstep with hstep
  subst hstep
  have hkept := (apply_writes (a := a) (reaches_valid hr)).invariant
    (I := fun g => g.Valid env ∧ I g) ⟨reaches_valid hr, h⟩
    fun g w hg hplaced _ => ⟨hg.1.apply, hI g w hg.1 hg.2 hplaced⟩
  exact hkept.2

end Actions

-- =============================================================== scenarios

/-- The state some actions lead to. -/
def GraphState.after (env : GraphEnv) (acts : List IndexAction)
    (s : GraphState) : GraphState :=
  acts.foldl (fun s a => a.apply env s) s

theorem after_run {env : GraphEnv} {acts : List IndexAction} :
    ∀ {s : GraphState},
      Lts.run (GraphState.step env) s acts = some (s.after env acts) := by
  induction acts with
  | nil => exact fun {_} => rfl
  | cons a rest ih => exact fun {_} => ih

theorem after_reaches {env : GraphEnv} {acts : List IndexAction}
    {s : GraphState} (hs : GraphReaches env Lts.Always s) :
    GraphReaches env Lts.Always (s.after env acts) :=
  Lts.reachable_of_run hs after_run

/-- The database of the scenarios: similar texts are equal ones. -/
def GraphEnv.sample (postgres : Bool) : GraphEnv where
  rt := .sample
  texts := ⟨fun s => s, fun _ => false⟩
  postgres := postgres
  uuid4 := fun k => k
  uuid4_injective := fun _ _ h => h
  similarity := fun s q => if s = q then 1 else 0
  similar := fun s q => s = q
  ilike := contains
  round4 := fun x => x
  mergeTrgmThreshold := 85 / 100
  searchTopK := 8
  llmExtractionEnabled := false

/-- A database where different texts are similar too. -/
def GraphEnv.namesakes : GraphEnv :=
  { GraphEnv.sample true with
    similarity := fun s q => if s = q then 1 else 9 / 10
    similar := fun _ _ => true }

/-- A message with the subject `Lease` and the id `<m…>`. -/
def IngestionItem.sample (id : Uuid) (owner : String)
    (inReplyTo thread : Option String) : IngestionItem where
  id := id
  externalId := "ext"
  title := some "Lease"
  bodyText := some "Please review."
  ingestedAt := id
  ownerUserId := owner
  emailMetadata := some
    { providerMessageId := some ("<m" ++ toString id ++ ">")
      providerThreadId := thread
      fromAddr := some "ann@x.org", toAddrs := [], ccAddrs := []
      inReplyTo := inReplyTo, references := [] }
  attachments := []

/-- A completed run of a session, and its job. -/
def sampleRun (id : Uuid) : Run :=
  { id := id, sessionId := id, jobId := id, kind := .pipeline
    status := .completed, startedAt := 0, finishedAt := none
    trigger := "", triggerPayload := .null }

def sampleJob (id : Uuid) : ProcessingJob :=
  { id := id, ingestionItemId := id, state := .completed, priority := 0
    attempts := 0, lastError := none, errorKind := none
    dispatchedAt := none, processingStartedAt := none, finishedAt := none
    currentSessionId := some id, ownerUserId := "u1", createdAt := 0
    updatedAt := 0 }

/-- An artifact of a session that is an empty dict. -/
def sampleAnalysis (sessionId : Uuid) (key : String) : Artifact :=
  { id := 0, sessionId := sessionId, runId := none, producer := ""
    kind := "", key := key, version := 1, mime := "application/json"
    storage := .inline, contentInline := some (.obj []), blobRef := none
    checksum := "", sizeBytes := 2, metadata := .null
    supersedesArtifactId := none, isLatest := true
    createdBy := none }

end LegalBot.Memory
