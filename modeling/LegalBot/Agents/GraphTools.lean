/-
`agents/tools/graph_tools.py`: the tool `search_related_docs`, over
`search_related` of `Memory/Graph.lean`.

# Floats

A score is a rational in the graph and a float in the result. `FloatText`
is how Python prints floats: as the number that the text is of when it is
read again.
-/
import LegalBot.Agents.StageHistory
import LegalBot.Memory.Graph

namespace LegalBot.Memory

-- =================================================================== results

/-- The value of a member. -/
def SourceType.value : SourceType → String
  | .ingestionItem => "ingestion_item"
  | .ingestionAttachment => "ingestion_attachment"
  | .run => "run"

/-- How floats are printed: `repr` of the float that a text is of, and of
a score. -/
structure FloatText where
  repr : String → String
  score : ℚ → String
  printed : ∀ x, Json.PrintedFloats repr (.float (score x))

/-- A result as the dict that `search_related` makes. -/
def SearchResult.toJson (floats : FloatText) (r : SearchResult) : Json :=
  .obj [("source_type", .str r.sourceType.value),
    ("source_id", .str (toString r.sourceId)),
    ("snippet", Tools.jsonText r.snippet),
    ("entity", .obj [("id", .str (toString r.entityId)),
      ("type", .str r.entityType.value),
      ("canonical_name", .str r.entityName)]),
    ("score", .float (floats.score r.score))]

end LegalBot.Memory

namespace LegalBot.Stages

open Memory

-- ====================================================================== tool

/-- What `search_related_docs` returns. -/
inductive SearchOutcome where
  | refused
  | found (query : String) (results : List SearchResult)
  deriving DecidableEq

/-- `search_related_docs`. -/
def searchRelatedDocs (env : GraphEnv) (g : Graph)
    (userId : Option String) (query : String) (k : Option Int) :
    Except GraphError SearchOutcome :=
  if userId.getD "" = "" then .ok .refused
  else
    (searchRelated env g query (userId.getD "")
      (some (searchLimit env k))).map (.found query)

/-- The results that were found. -/
def SearchOutcome.results : SearchOutcome → List SearchResult
  | .refused => []
  | .found _ results => results

/-- The dict. -/
def SearchOutcome.toJson (floats : FloatText) : SearchOutcome → Json
  | .refused =>
      .obj [("ok", .bool false),
        ("error", .str "missing user_id in agent state")]
  | .found query results =>
      .obj [("ok", .bool true), ("query", .str query),
        ("results", .arr (results.map (SearchResult.toJson floats)))]

/-- The content of the tool message. -/
def SearchOutcome.text (floats : FloatText) (o : SearchOutcome) : String :=
  Json.dumps (o.toJson floats)

/-- The tool message. -/
def searchMessage (floats : FloatText) (callId : String)
    (o : SearchOutcome) : Message :=
  toolMessage "search_related_docs" callId
    (outputContent (.json (o.toJson floats)))

-- ==================================================================== lemmas

section Outcomes

variable {floats : FloatText} {o : SearchOutcome} {r : SearchResult}
  {callId : String}

theorem searchMessage_content :
    (searchMessage floats callId o).content = .str (o.text floats) := by
  cases o with
  | refused => rfl
  | found query results => rfl

theorem isPython_text (floats : FloatText) (text : Option String) :
    Json.IsPython floats.repr (Tools.jsonText text) := by
  cases text with
  | none => exact ⟨trivial, trivial⟩
  | some text => exact ⟨trivial, trivial⟩

/-- The dict of a result is one that Python has. -/
theorem isPython_result : Json.IsPython floats.repr (r.toJson floats) := by
  have hentity : ["id", "type", "canonical_name"].Nodup := by decide
  have hresult : ["source_type", "source_id", "snippet", "entity",
      "score"].Nodup := by decide
  obtain ⟨hunique, hprinted⟩ := isPython_text floats r.snippet
  exact ⟨⟨hresult, trivial, trivial, hunique,
      ⟨hentity, trivial, trivial, trivial, trivial⟩, trivial, trivial⟩,
    trivial, trivial, hprinted, ⟨trivial, trivial, trivial, trivial⟩,
    floats.printed _, trivial⟩

theorem isPython_results (floats : FloatText)
    (results : List SearchResult) :
    Json.IsPython floats.repr
      (.arr (results.map (SearchResult.toJson floats))) := by
  induction results with
  | nil => exact ⟨trivial, trivial⟩
  | cons r rest ih =>
      exact ⟨⟨isPython_result.1, ih.1⟩, isPython_result.2, ih.2⟩

theorem isPython_outcome : Json.IsPython floats.repr (o.toJson floats) := by
  cases o with
  | refused =>
      exact ⟨⟨by decide, trivial, trivial, trivial⟩, trivial, trivial,
        trivial⟩
  | found query results =>
      have hfields : ["ok", "query", "results"].Nodup := by decide
      obtain ⟨hunique, hprinted⟩ := isPython_results floats results
      exact ⟨⟨hfields, trivial, trivial, hunique, trivial⟩, trivial,
        trivial, hprinted, trivial⟩

theorem toJson_obj : ∃ ms, o.toJson floats = .obj ms := by
  cases o with
  | refused => exact ⟨_, rfl⟩
  | found query results => exact ⟨_, rfl⟩

/-- The text is read back, and no shorter part of it is read. -/
theorem loads_text : Json.loads floats.repr (o.text floats)
    = some (o.toJson floats) := Json.loads_dumps isPython_outcome

theorem loads_text_cut {n : Nat} (h : n < (o.text floats).length) :
    Json.loads floats.repr (Tools.prefixOf n (o.text floats)) = none := by
  refine Json.loads_cut isPython_outcome (Or.inr toJson_obj)
    (List.take_append_drop n _) fun hnil => ?_
  rw [List.drop_eq_nil_iff] at hnil
  rw [← String.length_toList] at h
  exact absurd h (Nat.not_lt.mpr hnil)

end Outcomes

end LegalBot.Stages
