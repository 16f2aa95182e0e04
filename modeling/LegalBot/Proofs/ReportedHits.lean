/-
The results of the searches, next to the resources of the report.

# The cut

A finding has the first 4000 characters of the text of a search. A text
that is longer is cut inside the dict, and what is left is no JSON
(`loads_text_cut`): the search counts as one without results. So the
report has the results of the searches whose text fits
(`reportOn_some`).
-/
import LegalBot.Agents.GraphTools
import LegalBot.Agents.ResearchReport

namespace LegalBot.Stages

open Memory
open Tools (prefixOf jsonText)

-- ==================================================================== report

/-- The analyze report on searches, recorded as they come. -/
def reportOn (rt : Runtime) (floats : FloatText)
    (userInput : List (String × Json)) (decision : AnalyzeDecision)
    (searches : List (String × SearchOutcome)) : Option AnalyzeReport := do
  let steps ← researchSteps rt floats.repr
    (searches.map fun search => searchMessage floats search.1 search.2)
  buildAnalyzeReport rt floats.repr userInput steps decision

/-- The references of what was found, in the order it was found. -/
def foundRefs (searches : List (String × SearchOutcome)) : List String :=
  searches.flatMap fun search =>
    search.2.results.map fun r => toString r.sourceId

/-- The search as a text has at most 4000 characters. -/
def FitsFinding (floats : FloatText) (search : String × SearchOutcome) :
    Prop := (search.2.text floats).length ≤ 4000

instance (floats : FloatText) (search : String × SearchOutcome) :
    Decidable (FitsFinding floats search) :=
  inferInstanceAs (Decidable ((search.2.text floats).length ≤ 4000))

/-- The searches whose text fits a finding. -/
def fitting (floats : FloatText) (searches : List (String × SearchOutcome)) :
    List (String × SearchOutcome) :=
  searches.filter fun search => FitsFinding floats search

/-- Every hit is among the resources of the report, by its reference, in
the order of the first occurrences. -/
def HitsReported (rt : Runtime) (floats : FloatText)
    (userInput : List (String × Json)) (decision : AnalyzeDecision)
    (searches : List (String × SearchOutcome)) : Prop :=
  ∃ report, reportOn rt floats userInput decision searches = some report
    ∧ report.relevantResources.map (·.ref)
      = (foundRefs searches).eraseDups

-- ===================================================================== steps

section Steps

variable {rt : Runtime} {floats : FloatText} {o : SearchOutcome}
  {r : SearchResult} {callId s target : String}

theorem fitting_cons {search : String × SearchOutcome}
    {rest : List (String × SearchOutcome)} (h : FitsFinding floats search) :
    fitting floats (search :: rest) = search :: fitting floats rest :=
  List.filter_cons_of_pos (decide_eq_true h)

theorem fitting_cons_cut {search : String × SearchOutcome}
    {rest : List (String × SearchOutcome)}
    (h : ¬ FitsFinding floats search) :
    fitting floats (search :: rest) = fitting floats rest :=
  List.filter_cons_of_neg fun hfits => h (of_decide_eq_true hfits)

theorem strOr_str : strOr rt (.str s) "" = s := by
  unfold strOr
  split
  · rfl
  · rename_i h
    have hempty : (s != "") = false := Bool.eq_false_of_not_eq_true h
    exact (bne_eq_false_iff_eq.mp hempty).symm

/-- A search is recorded under the name of the tool, with its text as
far as it goes. -/
theorem step_of_search (rt : Runtime) (floats : FloatText)
    (callId : String) (o : SearchOutcome) : ∃ target,
    researchStepFromToolMessage rt floats.repr
        (searchMessage floats callId o)
      = some ⟨"search_related_docs", target,
        prefixOf 4000 (o.text floats)⟩ := by
  have hcontent : strOr rt (searchMessage floats callId o).content ""
      = o.text floats := by
    rw [searchMessage_content, strOr_str]
  have hname : strOr rt (searchMessage floats callId o).name "unknown"
      = "search_related_docs" := rfl
  obtain ⟨ms, hms⟩ : ∃ ms, o.toJson floats = .obj ms := toJson_obj
  have hloads : Json.loads floats.repr (o.text floats)
    = some (o.toJson floats) := loads_text
  rw [hms] at hloads
  refine ⟨strOr rt (getOrNone ms "query") "", ?_⟩
  unfold researchStepFromToolMessage
  dsimp only
  rw [hcontent, hname, hloads]
  rfl

/-- The text starts with the brace of the dict. -/
theorem text_starts :
    "\x7b".toList.isPrefixOf (o.text floats).toList = true := by
  obtain ⟨ms, hms⟩ : ∃ ms, o.toJson floats = .obj ms := toJson_obj
  unfold SearchOutcome.text
  rw [hms, Json.dumps, String.toList_append, String.toList_append]
  rfl

/-- What is found in the finding: all of it, or nothing. -/
theorem hitsOf_search :
    hitsOf floats.repr (prefixOf 4000 (o.text floats))
      = some (if (o.text floats).length ≤ 4000 then
          o.results.map (SearchResult.toJson floats) else []) := by
  unfold hitsOf
  by_cases hfits : (o.text floats).length ≤ 4000
  · have hwhole : prefixOf 4000 (o.text floats) = o.text floats := by
      unfold prefixOf
      rw [List.take_of_length_le (by rwa [String.length_toList]),
        String.ofList_toList]
    rw [if_pos hfits, hwhole, if_pos text_starts, loads_text]
    cases o with
    | refused => rfl
    | found query results =>
        cases results with
        | nil => rfl
        | cons r rest => rfl
  · rw [if_neg hfits, loads_text_cut (Nat.lt_of_not_le hfits)]
    dsimp only [Option.getD]
    split
    · rfl
    · rfl

/-- The resource of a result. -/
def resourceOf (r : SearchResult) : ResourceRef :=
  ⟨.ingestionItem, toString r.sourceId, prefixOf 200 (r.snippet.getD "")⟩

theorem hitResource_result :
    hitResource rt (r.toJson floats) = some (resourceOf r) := by
  have hid : (Json.str (toString r.sourceId)).truthy = true := by
    show (toString r.sourceId != "") = true
    rw [bne_iff_ne]
    exact Nat.repr_ne_empty
  have hsnippet : strOr rt (jsonText r.snippet) "" = r.snippet.getD "" := by
    cases r.snippet with
    | none => rfl
    | some text => exact strOr_str
  show (if (Json.str (toString r.sourceId)).truthy then
    some (ResourceRef.mk .ingestionItem (toString r.sourceId)
      (prefixOf 200 (strOr rt (jsonText r.snippet) ""))) else none) = _
  rw [if_pos hid, hsnippet]
  rfl

/-- The resources of a search: those of its results, when its text
fits. -/
theorem stepResources_search :
    stepResources rt floats.repr
        ⟨"search_related_docs", target, prefixOf 4000 (o.text floats)⟩
      = some ((if (o.text floats).length ≤ 4000 then o.results
          else []).map resourceOf) := by
  have hresources : ∀ results : List SearchResult,
      (results.map (SearchResult.toJson floats)).filterMap (hitResource rt)
        = results.map resourceOf := by
    intro results
    rw [List.filterMap_map, ← List.filterMap_eq_map]
    exact congrFun (congrArg _ (funext fun r => hitResource_result)) results
  unfold stepResources
  rw [if_pos rfl, hitsOf_search, Option.map_some]
  split
  · rw [hresources]
  · rfl

-- ================================================================ references

/-- A result whose reference is there is left out. -/
theorem addResource_known {resources : List ResourceRef}
    (hitems : ∀ s ∈ resources, s.type = .ingestionItem)
    (h : toString r.sourceId ∈ resources.map (·.ref)) :
    addResource resources (resourceOf r) = resources := by
  obtain ⟨s, hs, href⟩ := List.mem_map.mp h
  exact if_pos ⟨s, hs, hitems s hs, href⟩

theorem addResource_new {resources : List ResourceRef}
    (h : toString r.sourceId ∉ resources.map (·.ref)) :
    addResource resources (resourceOf r)
      = resources ++ [resourceOf r] := by
  refine if_neg ?_
  rintro ⟨s, hs, -, href⟩
  exact h (List.mem_map.mpr ⟨s, hs, href⟩)

/-- The resources have the first occurrence of each reference. -/
theorem refs_foldl (results : List SearchResult) :
    ∀ {resources : List ResourceRef},
      (∀ s ∈ resources, s.type = .ingestionItem) →
      ((results.map resourceOf).foldl addResource resources).map (·.ref)
        = List.eraseDupsBy.loop (· == ·)
          (results.map fun r => toString r.sourceId)
          (resources.map (·.ref)).reverse := by
  induction results with
  | nil =>
      intro resources _
      exact (List.reverse_reverse _).symm
  | cons r rest ih =>
      intro resources hitems
      rw [List.map_cons, List.map_cons, List.foldl_cons,
        List.eraseDupsBy.loop]
      by_cases hthere : toString r.sourceId ∈ resources.map (·.ref)
      · have hany : (resources.map (·.ref)).reverse.any
            (toString r.sourceId == ·) = true := by
          rw [List.any_reverse, List.any_beq]
          exact List.elem_eq_true_of_mem hthere
        rw [addResource_known hitems hthere, hany]
        exact ih hitems
      · have hany : (resources.map (·.ref)).reverse.any
            (toString r.sourceId == ·) = false := by
          rw [List.any_reverse]
          exact List.any_eq_false.mpr fun ref href heq =>
            hthere (eq_of_beq heq ▸ href)
        have hitems' : ∀ s ∈ resources ++ [resourceOf r],
            s.type = .ingestionItem := by
          intro s hs
          rcases List.mem_append.mp hs with hs | hs
          · exact hitems s hs
          · rw [List.mem_singleton.mp hs]
            rfl
        rw [addResource_new hthere, hany, ih hitems', List.map_append,
          List.reverse_append]
        rfl

/-- The steps of the searches, and the resources that come of them. -/
theorem resources_of_searches (rt : Runtime) (floats : FloatText)
    (searches : List (String × SearchOutcome)) :
    ∃ steps, researchSteps rt floats.repr (searches.map fun search =>
        searchMessage floats search.1 search.2) = some steps
      ∧ ∀ resources, resourcesFrom rt floats.repr resources steps
        = some ((((fitting floats searches).flatMap fun search =>
            search.2.results).map resourceOf).foldl addResource
              resources) := by
  induction searches with
  | nil => exact ⟨[], rfl, fun _ => rfl⟩
  | cons search rest ih =>
      obtain ⟨steps, hsteps, hresources⟩ := ih
      obtain ⟨target, hstep⟩ :=
        step_of_search rt floats search.1 search.2
      refine ⟨⟨"search_related_docs", target,
        prefixOf 4000 (search.2.text floats)⟩ :: steps, ?_,
        fun resources => ?_⟩
      · rw [List.map_cons, researchSteps, hstep, hsteps]
        rfl
      · rw [resourcesFrom, stepResources_search]
        show resourcesFrom rt floats.repr _ steps = _
        rw [hresources]
        by_cases hfits : (search.2.text floats).length ≤ 4000
        · rw [if_pos hfits, fitting_cons hfits, List.flatMap_cons,
            List.map_append, List.foldl_append]
        · rw [if_neg hfits, fitting_cons_cut hfits]
          rfl

/-- The report has the results of the searches whose text fits. -/
theorem reportOn_some (rt : Runtime) (floats : FloatText)
    (userInput : List (String × Json)) (decision : AnalyzeDecision)
    (searches : List (String × SearchOutcome)) :
    ∃ report, reportOn rt floats userInput decision searches = some report
      ∧ report.relevantResources.map (·.ref)
        = (foundRefs (fitting floats searches)).eraseDups := by
  obtain ⟨steps, hsteps, hresources⟩ :=
    resources_of_searches rt floats searches
  have hreport : resourcesFromResearch rt floats.repr steps = _ :=
    hresources []
  unfold reportOn buildAnalyzeReport
  rw [hsteps]
  show ∃ report, Option.map _ (resourcesFromResearch rt floats.repr steps)
    = some report ∧ _
  rw [hreport]
  refine ⟨_, rfl, ?_⟩
  dsimp only
  rw [refs_foldl _ fun s hs => absurd hs List.not_mem_nil]
  unfold foundRefs
  rw [List.map_flatMap]
  rfl

/-- No hit is dropped exactly when the searches whose text fits the
finding have all the references, in the order of the first
occurrences. -/
theorem hits_reported_iff {userInput : List (String × Json)}
    {decision : AnalyzeDecision}
    {searches : List (String × SearchOutcome)} :
    HitsReported rt floats userInput decision searches
      ↔ (foundRefs (fitting floats searches)).eraseDups
        = (foundRefs searches).eraseDups := by
  obtain ⟨report, hreport, hrefs⟩ :=
    reportOn_some rt floats userInput decision searches
  rw [← hrefs]
  constructor
  · rintro ⟨report', hreport', hall⟩
    rw [hreport] at hreport'
    injection hreport' with hreport'
    rw [hreport']
    exact hall
  · exact fun hall => ⟨report, hreport, hall⟩

end Steps

-- ================================================================== scenario

/-- A text is no longer than its quotation. -/
theorem length_quote (s : String) : s.length ≤ (Json.quote s).length := by
  have hescaped := Json.length_escaped s.toList
  rw [← String.length_toList, ← String.length_toList, Json.toList_quote,
    List.length_cons, List.length_append]
  omega

/-- Floats of which only one is printed. -/
def FloatText.sample : FloatText where
  repr := id
  score := fun _ => "1.0"
  printed := fun _ => by decide

/-- A result with a long title. -/
def longHit : SearchResult where
  sourceType := .ingestionItem
  sourceId := 7
  snippet := some (String.ofList (List.replicate 4000 'a'))
  entityId := 1
  entityType := .person
  entityName := "Ana"
  score := 1

/-- The search that finds it. -/
def longSearch : String × SearchOutcome :=
  ("call_1", .found "Ana" [longHit])

theorem longSearch_cut : ¬ FitsFinding FloatText.sample longSearch := by
  have hquote := length_quote (String.ofList (List.replicate 4000 'a'))
  rw [String.length_ofList, List.length_replicate] at hquote
  unfold FitsFinding SearchOutcome.text
  simp only [longSearch, longHit, SearchOutcome.toJson,
    SearchResult.toJson, jsonText, List.map_cons, List.map_nil, Json.dumps,
    Json.dumpsMembers, Json.dumpsItems, String.length_append]
  have hbrace : 0 < "\x7b".length := by decide
  omega

/-- A decision that nothing is to be done. -/
def noDecision : AnalyzeDecision where
  intention := ""
  confidence := "low"
  informationSufficient := true
  action := none
  missingInformation := []
  blockers := []
  draftResponse := none
  createContract := none
  otherReason := none

/-- The result is not in the report. -/
theorem long_hit_dropped :
    ¬ HitsReported Runtime.sample FloatText.sample [] noDecision
      [longSearch] := by
  obtain ⟨report, hreport, hrefs⟩ := reportOn_some Runtime.sample
    FloatText.sample [] noDecision [longSearch]
  rintro ⟨report', hreport', hall⟩
  rw [hreport] at hreport'
  injection hreport' with hreport'
  rw [← hreport', hrefs, fitting_cons_cut longSearch_cut] at hall
  cases hall

end LegalBot.Stages
