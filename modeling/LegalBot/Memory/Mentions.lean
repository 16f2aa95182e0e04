/-
The mentions an indexing call adds.

# Sources

A mention has the kind of its source and its id in two columns.
`MentionFrom` says what both are in the calls for an item and for a run
of it: the item, one of its attachments, or the run.

# Programs

What a call adds is the union of what its statements add, whatever rows
they find: `Adds P` goes through a program by the rules of `Leads`, and
the statements but `add_mention` add nothing.
-/
import LegalBot.Memory.Histories

namespace LegalBot.Memory

open Programs

-- ================================================================== adding

/-- The mentions the second graph has beyond the first meet `P`. -/
def AddedMentions (P : KgMention → Prop) (g g' : Graph) : Prop :=
  ∀ m ∈ g'.mentions, m ∈ g.mentions ∨ P m

instance (P : KgMention → Prop) : IsPreorder Graph (AddedMentions P) where
  refl _ _ hm := Or.inl hm
  trans _ _ _ h h' m hm := (h' m hm).elim (h m) Or.inr

/-- The mentions a program adds meet `P`. -/
abbrev Adds {α : Type} (P : KgMention → Prop) (x : GraphM α) : Prop :=
  Leads (AddedMentions P) x

/-- The source of a mention is the item, an attachment of it, or the
run. -/
def MentionFrom (item : IngestionItem) (runId : Option Uuid)
    (m : KgMention) : Prop :=
  m.ownerUserId = item.ownerUserId ∧
    match m.sourceType with
    | .ingestionItem => m.sourceId = item.id
    | .ingestionAttachment => ∃ att ∈ item.attachments, att.id = m.sourceId
    | .run => runId = some m.sourceId

section Statements

variable {P : KgMention → Prop} {env : GraphEnv} {k : EntityKey}
  {name : String} {attrs : Attributes}

/-- A program that leaves the mentions. -/
theorem adds_of_same {α : Type} {x : GraphM α}
    (h : ∀ g, Wlp x (fun _ g' => g'.mentions = g.mentions) g) :
    Adds P x :=
  fun g => (h g).mono fun _ _ hsame _ hm => Or.inl (hsame ▸ hm)

theorem insertEntity_adds : Adds P (insertEntity env k name attrs) := by
  refine adds_of_same fun g row g' h => ?_
  unfold insertEntity at h
  split at h
  · cases h
  · cases h
    rfl

theorem updateEntity_adds {row : KgEntity} :
    Adds P (updateEntity row name attrs) := by
  refine adds_of_same fun g row' g' h => ?_
  cases h
  rfl

theorem upsertRow_adds : Adds P (upsertRow env k name attrs) := by
  unfold upsertRow
  split
  · refine Leads.bind .get fun g => ?_
    split
    · exact insertEntity_adds
    · exact updateEntity_adds
  · refine Leads.bind .get fun g => Leads.bind .liftM fun found => ?_
    cases found with
    | none => exact insertEntity_adds
    | some row => exact updateEntity_adds

theorem upsertAlias_adds {id : Uuid} :
    Adds P (upsertAlias env id name) := by
  unfold upsertAlias
  split
  · refine Leads.modify fun g m hm => Or.inl ?_
    split at hm <;> exact hm
  · refine Leads.bind .get fun g => Leads.bind .liftM fun found => ?_
    cases found with
    | none => exact Leads.modify fun g m hm => Or.inl hm
    | some row => exact .pure

theorem upsertAliasIf_adds {id : Uuid} :
    Adds P (upsertAliasIf env id name) := by
  unfold upsertAliasIf
  split
  · exact .pure
  · exact upsertAlias_adds

theorem upsertEntity_adds {aliasName : Option String} :
    Adds P (upsertEntity env k name attrs aliasName) :=
  Leads.bind upsertRow_adds fun _ =>
    Leads.bind (Leads.forM fun _ _ => upsertAliasIf_adds) fun _ => .pure

theorem addEdge_adds {edge : KgEdge} : Adds P (addEdge env edge) := by
  unfold addEdge
  split
  · refine Leads.modify fun g m hm => Or.inl ?_
    split at hm <;> exact hm
  · refine Leads.bind .get fun g => Leads.bind .liftM fun found => ?_
    cases found with
    | none => exact Leads.modify fun g m hm => Or.inl hm
    | some row => exact .pure

/-- The statement that adds one. -/
theorem addMention_adds {m : KgMention} (h : P m) :
    Adds P (addMention m) := by
  refine Leads.modify fun g m' hm' => ?_
  refine (List.mem_append.mp hm').imp_right fun hm' => ?_
  rw [List.mem_singleton.mp hm']
  exact h

end Statements

-- =================================================================== items

section Items

variable {env : GraphEnv} {src : Sources} {item : IngestionItem}
  {runId : Option Uuid} {emailId : Uuid}

theorem indexPerson_adds {relation : Relation} {attributes : Attributes}
    {rawAddr : String} :
    Adds (MentionFrom item runId)
      (indexPerson env item emailId relation attributes rawAddr) := by
  have hperson : Adds (MentionFrom item runId)
      (upsertPersonFromAddr env item.ownerUserId rawAddr item.id) := by
    unfold upsertPersonFromAddr
    cases parseEmailAddress env.texts rawAddr with
    | mk display email =>
        simp only
        split
        · exact .pure
        · refine Leads.bind upsertEntity_adds fun person => ?_
          exact Leads.bind (addMention_adds ⟨rfl, rfl⟩) fun _ => .pure
  refine Leads.bind hperson fun person => ?_
  cases person with
  | none => exact .pure
  | some person => exact addEdge_adds

theorem indexPersons_adds :
    Adds (MentionFrom item runId) (indexPersons env item emailId) := by
  unfold indexPersons
  cases item.emailMetadata with
  | none => exact .pure
  | some detail =>
      refine Leads.bind ?_ fun _ => Leads.bind
        (Leads.forM fun _ _ => indexPerson_adds) fun _ =>
          Leads.forM fun _ _ => indexPerson_adds
      unfold indexSender
      split
      · exact .pure
      · exact indexPerson_adds

theorem indexAttachment_adds {att : IngestionAttachment}
    (h : att ∈ item.attachments) :
    Adds (MentionFrom item runId)
      (indexAttachment env item emailId att) := by
  refine Leads.bind upsertEntity_adds fun entity => ?_
  refine Leads.bind (addMention_adds ⟨rfl, att, h, rfl⟩) fun _ => ?_
  exact addEdge_adds

theorem indexParent_adds :
    Adds (MentionFrom item runId) (indexParent env src item emailId) := by
  have hparent : Adds (MentionFrom item runId)
      (resolveParentEmail env src item) := by
    refine Leads.bind .liftM fun parent => ?_
    cases parent with
    | none => exact .pure
    | some parent =>
        exact Leads.bind upsertEntity_adds fun _ => .pure
  refine Leads.bind hparent fun parent => ?_
  cases parent with
  | none => exact .pure
  | some parent =>
      dsimp only
      split
      · exact addEdge_adds
      · exact .pure

/-- Indexing an item mentions it and its attachments. -/
theorem indexItem_adds :
    Adds (MentionFrom item runId) (indexItem env src item) := by
  refine Leads.bind upsertEntity_adds fun email => ?_
  refine Leads.bind (addMention_adds ⟨rfl, rfl⟩) fun _ => ?_
  refine Leads.bind indexPersons_adds fun _ => ?_
  refine Leads.bind (Leads.forM fun _ h => indexAttachment_adds h)
    fun _ => ?_
  exact Leads.bind indexParent_adds fun _ => .pure

end Items

-- ==================================================================== runs

section Runs

variable {env : GraphEnv} {src : Sources} {item : IngestionItem}
  {run : Run} {reply : Option (List LlmExtractedEntity)}

theorem resolveEntity_adds {P : KgMention → Prop} {k : EntityKey}
    {name : String} {aliases : List String} {attrs : Attributes} :
    Adds P (resolveEntity env k name aliases attrs) := by
  refine Leads.bind .get fun g => Leads.bind .liftM fun existing => ?_
  cases existing with
  | some existing => exact .pure
  | none =>
      refine Leads.bind .get fun g => ?_
      cases fuzzyMatch env g k name with
      | none => exact upsertEntity_adds
      | some m =>
          refine Leads.bind .get fun g => Leads.bind .liftM fun row => ?_
          refine Leads.bind upsertAliasIf_adds fun _ => ?_
          exact Leads.bind (Leads.forM fun _ _ => upsertAliasIf_adds)
            fun _ => .pure

theorem applyEntity_adds {p : ProjectionEntity} :
    Adds (MentionFrom item (some run.id))
      (applyEntity env item.ownerUserId run.id item.id p) := by
  refine Leads.bind resolveEntity_adds fun row => ?_
  refine Leads.bind (addMention_adds ⟨rfl, rfl⟩) fun _ => ?_
  exact Leads.bind (addMention_adds ⟨rfl, rfl⟩) fun _ => .pure

theorem applyEdge_adds {P : KgMention → Prop} {owner : String}
    {runId : Uuid} {email : KgEntity}
    {resolved : List (ProjectionEntity × KgEntity)}
    {edge : ProjectionEdge} :
    Adds P (applyEdge env owner runId item email resolved edge) := by
  have hsource : Adds P (edgeSource env owner item email resolved edge) := by
    unfold edgeSource
    split
    · exact .pure
    · split
      · unfold resolveAttachmentEntity
        split
        · exact .pure
        · exact Leads.bind .get fun g => .liftM
      · exact .pure
  refine Leads.bind hsource fun found => ?_
  unfold addProjectedEdge
  split
  · exact Leads.bind addEdge_adds fun _ => .pure
  · exact .pure

/-- Indexing a run mentions the item, its attachments and the run. -/
theorem indexRunOf_adds :
    Adds (MentionFrom item (some run.id))
      (indexRunOf env src run item reply) := by
  refine Leads.bind indexItem_adds fun _ => ?_
  refine Leads.bind .get fun g => Leads.bind .liftM fun email => ?_
  cases email with
  | none => exact .pure
  | some email =>
      refine Leads.bind .liftM fun projection => ?_
      have happly : Adds (MentionFrom item (some run.id))
          (applyProjection env item.ownerUserId projection email run.id
            item) :=
        Leads.bind (Leads.mapM fun _ _ => applyEntity_adds) fun _ =>
          Leads.bind (Leads.mapM fun _ _ => applyEdge_adds) fun _ => .pure
      exact Leads.bind happly fun _ => .pure

end Runs

end LegalBot.Memory
