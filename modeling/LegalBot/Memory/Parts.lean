/-
What each section of `build_projection_from_artifacts` adds.

# Parts

No key of the builder depends on what has been projected before, and an
edge names its ends by type and key. So what a section adds is a part of
its own (`entryPart`, `intentionPart`, `requestPart`, `draftPart`), and
each function of the builder merges its part into the projection it is
given, in the sense of `merge_projections`. `buildProjection_eq` says so
of the whole: the entities are the first ones of each type and key among
the parts, and the edges are those of the parts.

# What can raise

A section raises where a value is not of the kind it goes through: a
`for` over a number or `True`, `.items()` of no dict (`Entries`,
`Provided`, `FieldValues`). `buildProjection_succeeds` says that nothing
else does.
-/
import LegalBot.Memory.Projected

namespace LegalBot.Memory

open Json (getMember truthy)
open Programs
open Ranking (firsts filter_firsts)

-- =================================================================== parts

/-- One part after the other. -/
def GraphProjection.concat (parts : List GraphProjection) :
    GraphProjection :=
  ⟨parts.flatMap (·.entities), parts.flatMap (·.edges)⟩

section Parts

variable {p q : GraphProjection} {ent : ProjectionEntity}
  {parts more : List GraphProjection}

theorem merge_empty : mergeProjections p .empty = p := by
  unfold mergeProjections GraphProjection.empty
  simp only [List.foldl_nil, List.append_nil]

theorem merge_concat : (parts.foldl mergeProjections p)
    = mergeProjections p (.concat parts) := by
  induction parts generalizing p with
  | nil => exact merge_empty.symm
  | cons q rest ih =>
      rw [List.foldl_cons, ih]
      unfold mergeProjections GraphProjection.concat
      simp only [List.flatMap_cons, List.foldl_append, List.append_assoc]

theorem merge_merge : mergeProjections (mergeProjections p (.concat parts))
    (.concat more) = mergeProjections p (.concat (parts ++ more)) := by
  rw [← merge_concat, ← merge_concat, ← merge_concat, List.foldl_append]

theorem merge_last : mergeProjections (mergeProjections p (.concat parts)) q
    = mergeProjections p (.concat (parts ++ [q])) := by
  rw [← merge_concat, ← merge_concat, List.foldl_append]
  rfl

/-- From nothing, a merge keeps the first entity of each type and key. -/
theorem merge_firsts : (mergeProjections .empty q).entities
    = firsts ProjectionEntity.bucket q.entities := by
  unfold mergeProjections
  rw [mergeEntity_eq]
  rfl

theorem kept_under {b : EntityType × String} :
    (mergeProjections .empty q).entities.filter (fun e => e.bucket = b)
      = (q.entities.find? fun e => e.bucket = b).toList := by
  rw [merge_firsts, filter_firsts]

/-- What `add` returns is under the type and key of what it is given. -/
theorem add_bucket : (p.add ent).1.bucket = ent.bucket := by
  unfold GraphProjection.add
  split
  · rename_i found hfind
    obtain ⟨htype, hkey⟩ : found.entityType = ent.entityType
        ∧ found.canonicalKey = ent.canonicalKey := by
      simpa using List.find?_some hfind
    exact Prod.ext htype hkey
  · rfl

/-- `add` is a merge with the entity alone. -/
theorem add_merge : (p.add ent).2 = mergeProjections p ⟨[ent], []⟩ := by
  unfold GraphProjection.add mergeProjections mergeEntity
  simp only [List.foldl_cons, List.foldl_nil, List.append_nil]
  split
  · rename_i found hfind
    have hfound : found.entityType = ent.entityType
        ∧ found.canonicalKey = ent.canonicalKey := by
      simpa using List.find?_some hfind
    rw [if_pos ⟨found, List.mem_of_find?_eq_some hfind, hfound⟩]
  · rename_i hnone
    rw [if_neg]
    rintro ⟨e, he, hsame⟩
    exact List.find?_eq_none.mp hnone e he (decide_eq_true hsame)

theorem merge_nil : mergeProjections p (.concat []) = p := merge_empty

/-- Rounds that each merge their own parts. -/
theorem merge_flatMap {α : Type} {f : α → List GraphProjection}
    {xs : List α} :
    xs.foldl (fun p a => mergeProjections p (.concat (f a))) p
      = mergeProjections p (.concat (xs.flatMap f)) := by
  induction xs generalizing p with
  | nil => exact merge_empty.symm
  | cons a rest ih =>
      rw [List.foldl_cons, ih, merge_merge, List.flatMap_cons]

/-- An entity alone. -/
def entityPart (ent : ProjectionEntity) : GraphProjection := ⟨[ent], []⟩

/-- A link names its ends by type and key. -/
theorem link_merge {src src' dst dst' : ProjectionEntity}
    {relation : Relation} (hsrc : src.bucket = src'.bucket)
    (hdst : dst.bucket = dst'.bucket) : p.link src dst relation
      = mergeProjections p (GraphProjection.empty.link src' dst'
        relation) := by
  obtain ⟨hst, hsk⟩ := Prod.mk.inj hsrc
  obtain ⟨hdt, hdk⟩ := Prod.mk.inj hdst
  unfold GraphProjection.link GraphProjection.edge mergeProjections
  rw [hst, hsk, hdt, hdk]
  rfl

theorem linkEmail_merge {dst dst' : ProjectionEntity}
    {relation : Relation} (hdst : dst.bucket = dst'.bucket) :
    p.linkEmail dst relation
      = mergeProjections p (GraphProjection.empty.linkEmail dst'
        relation) := by
  obtain ⟨hdt, hdk⟩ := Prod.mk.inj hdst
  unfold GraphProjection.linkEmail GraphProjection.edge mergeProjections
  rw [hdt, hdk]
  rfl

/-- An entity and the email's link to it. -/
theorem addEmail_merge {relation : Relation} :
    (p.add ent).2.linkEmail (p.add ent).1 relation
      = mergeProjections p (.concat [entityPart ent,
        GraphProjection.empty.linkEmail ent relation]) := by
  rw [linkEmail_merge add_bucket, add_merge, ← merge_concat]
  rfl

/-- The links of parties to a contract. -/
def partyParts (ents : List ProjectionEntity)
    (contract : ProjectionEntity) : List GraphProjection :=
  ents.map fun ent => GraphProjection.empty.link ent contract .partyTo

theorem linkParties_merge {parties ents : List ProjectionEntity}
    {contract contract' : ProjectionEntity}
    (hparties : parties.map (·.bucket) = ents.map (·.bucket))
    (hcontract : contract.bucket = contract'.bucket) :
    p.linkParties parties contract
      = mergeProjections p (.concat (partyParts ents contract')) := by
  unfold GraphProjection.linkParties
  induction parties generalizing p ents with
  | nil =>
      rw [List.map_nil, eq_comm, List.map_eq_nil_iff] at hparties
      rw [hparties]
      exact merge_empty.symm
  | cons party rest ih =>
      cases ents with
      | nil => cases hparties
      | cons ent more =>
          obtain ⟨hfirst, hrest⟩ := List.cons.inj hparties
          rw [List.foldl_cons, ih hrest, link_merge hfirst hcontract,
            ← merge_concat, ← merge_concat]
          rfl

end Parts

-- ================================================================ sections

section Sections

variable (rt : Runtime) (tx : Texts)

/-- The key of an entity with no domain, email or parties. -/
def bareKey (type : EntityType) (name : String) : String :=
  match type with
  | .organization => organizationCanonicalKey tx name none
  | .contract => contractCanonicalKey tx "unknown" []
  | _ => "name:" ++ normalizeName tx name

/-- The entity of an entry. -/
def entryEntity (content : Attributes) (snippet : String)
    (etype : EntityType) (name : String) : ProjectionEntity :=
  { entityType := etype, canonicalKey := bareKey tx etype name
    canonicalName := strip name
    attributes := [("source_file",
      (getMember content "source_file").getD .null)]
    aliases := [], snippet := some snippet, confidence := 9 / 10
    origin := "artifact" }

def entryParts (content : Attributes) (snippet : String) (raw : Json) :
    List GraphProjection :=
  match parseEntityEntry rt tx raw with
  | none => []
  | some (etype, name) =>
      let ent := entryEntity tx content snippet etype name
      [entityPart ent, GraphProjection.empty.linkEmail ent .mentions]

/-- The entries of an `extracted_data` artifact. -/
def entriesOf (content : Attributes) : List Json :=
  match iterate (getOr content "entities" (.arr [])) with
  | .ok entries => entries
  | .error _ => []

/-- The snippet of its entities. -/
def snippetOf (key : String) (content : Attributes) : String :=
  takeChars 500 (strOf rt (getOr content "summary" (.str key)))

def extractedParts (artifact : String × Json) : List GraphProjection :=
  match artifact with
  | (key, .obj content) =>
      if startsWith key "extracted_data/" then
        (entriesOf content).flatMap
          (entryParts rt tx content (snippetOf rt key content))
      else []
  | _ => []

/-- The law area. -/
def intentionParts (report : Attributes) : List GraphProjection :=
  let intention := strip (strOf rt (getOr report "intention" (.str "")))
  if intention = "" then []
  else
    let ent : ProjectionEntity :=
      { entityType := .document
        canonicalKey := lawAreaCanonicalKey tx (takeChars 80 intention)
        canonicalName := strip (takeChars 120 intention)
        attributes := [("analysis_intention", .bool true)], aliases := []
        snippet := none, confidence := 9 / 10, origin := "artifact" }
    [entityPart ent, GraphProjection.empty.linkEmail ent .concerns]

/-- The party fields among some fields, with the name each has. -/
def partyFields (fields : Attributes) : List (String × String) :=
  fields.filterMap fun field =>
    if isPartyFieldName tx field.1 ∧ strip (strOf rt field.2) ≠ "" then
      some (field.1, strip (strOf rt field.2))
    else none

/-- The entity of a party field. -/
def partyEntity (snippets : Bool) (field : String × String) :
    ProjectionEntity :=
  { entityType := inferEntityTypeFromName tx field.2
    canonicalKey :=
      bareKey tx (inferEntityTypeFromName tx field.2) field.2
    canonicalName := strip field.2
    attributes := [("field", .str field.1)], aliases := []
    snippet :=
      if snippets then some (field.1 ++ ": " ++ field.2) else none
    confidence := 9 / 10, origin := "artifact" }

/-- What a report wants drafted. -/
def requestPayload (report : Attributes) : Option Attributes :=
  match getOr report "action_payload" (.obj []) with
  | .obj payload =>
      if strip (strOf rt (getOr report "action" (.str "")))
        = "create_contract" then some payload
      else none
  | _ => none

def requestType (payload : Attributes) : String :=
  strip (strOf rt (getOr payload "contract_type_hint" (.str "contract")))

def requestFields (payload : Attributes) : List (String × String) :=
  partyFields rt tx (getOr payload "provided_fields" (.obj [])).members

/-- The contract of a request. -/
def requestContract (payload : Attributes) : ProjectionEntity :=
  let names := (requestFields rt tx payload).map (·.2)
  { entityType := .contract
    canonicalKey := contractCanonicalKey tx (requestType rt payload) names
    canonicalName := strip (requestType rt payload)
    attributes := [("contract_type", .str (requestType rt payload)),
      ("parties", .arr (names.map .str)), ("status", .str "requested")]
    aliases := [], snippet := none, confidence := 9 / 10
    origin := "artifact" }

def requestParts (report : Attributes) : List GraphProjection :=
  match requestPayload rt report with
  | none => []
  | some payload =>
      let ents := (requestFields rt tx payload).map (partyEntity tx true)
      if ents ≠ [] ∨ requestType rt payload ≠ "" then
        let contract := requestContract rt tx payload
        ents.map entityPart ++ [entityPart contract]
          ++ partyParts ents contract
          ++ [GraphProjection.empty.linkEmail contract .references]
      else []

def draftType (draft : Attributes) : String :=
  strip (strOf rt (getOr draft "contract_type" (.str "contract")))

/-- `draft.get("field_values") or {}`. -/
def draftValues (draft : Attributes) : Attributes :=
  (getOr draft "field_values" (.obj [])).members

def draftFields (draft : Attributes) : List (String × String) :=
  partyFields rt tx (draftValues draft)

/-- The contract of a draft. -/
def draftContract (draft : Attributes) : ProjectionEntity :=
  let names := (draftFields rt tx draft).map (·.2)
  { entityType := .contract
    canonicalKey := contractCanonicalKey tx (draftType rt draft) names
    canonicalName := strip (strOf rt
      (getOr draft "display_name" (.str (draftType rt draft))))
    attributes := [("contract_type", .str (draftType rt draft)),
      ("parties", .arr (names.map .str)),
      ("field_values", .obj (draftValues draft)),
      ("status", .str "draft")]
    aliases := [], snippet := none, confidence := 95 / 100
    origin := "artifact" }

/-- The governing law of a draft. -/
def jurisdictionParts (draft : Attributes) : List GraphProjection :=
  let governing := getOr (draftValues draft) "governing_law" .null
  if truthy governing then
    let name := strOf rt governing
    let ent : ProjectionEntity :=
      { entityType := .jurisdiction
        canonicalKey := "jurisdiction:" ++ normalizeName tx name
        canonicalName := strip (strip name), attributes := []
        aliases := [], snippet := none, confidence := 9 / 10
        origin := "artifact" }
    [entityPart ent,
      GraphProjection.empty.link (draftContract rt tx draft) ent
        .governedBy]
  else []

def draftParts (draft : Attributes) : List GraphProjection :=
  let ents := (draftFields rt tx draft).map (partyEntity tx false)
  let contract := draftContract rt tx draft
  ents.map entityPart ++ [entityPart contract] ++ partyParts ents contract
    ++ jurisdictionParts rt tx draft

/-- The parts of `analysis/report`. -/
def reportParts : Json → List GraphProjection
  | .obj report => intentionParts rt tx report ++ requestParts rt tx report
  | _ => []

/-- The parts of `contracts/draft`. -/
def contractParts : Option Json → List GraphProjection
  | some (.obj draft) => draftParts rt tx draft
  | _ => []

/-- The parts of a whole bundle. -/
def artifactParts (artifacts : Attributes) : List GraphProjection :=
  artifacts.flatMap (extractedParts rt tx)
    ++ reportParts rt tx (getOr artifacts "analysis/report" (.obj []))
    ++ contractParts rt tx (getMember artifacts "contracts/draft")

end Sections

-- ================================================================== shapes

/-- A `for` loop goes through the value. -/
def Iterable : Json → Prop
  | .arr _ | .str _ | .obj _ => True
  | _ => False

/-- The value has `items()`. -/
def IsDict : Json → Prop
  | .obj _ => True
  | _ => False

instance (v : Json) : Decidable (Iterable v) := by
  unfold Iterable
  cases v <;> infer_instance

instance (v : Json) : Decidable (IsDict v) := by
  unfold IsDict
  cases v <;> infer_instance

theorem iterate_succeeds {v : Json} :
    Succeeds (iterate v) ↔ Iterable v := by
  unfold iterate Iterable
  cases v <;> simp [succeeds_ok, not_succeeds_error]

theorem itemsOf_succeeds {v : Json} : Succeeds (itemsOf v) ↔ IsDict v := by
  unfold itemsOf IsDict
  cases v <;> simp [succeeds_ok, not_succeeds_error]

theorem itemsOf_members {v : Json} {d : Attributes}
    (h : itemsOf v = .ok d) : v.members = d := by
  unfold itemsOf at h
  split at h
  · injection h
  · cases h

/-- Where the builder's values have the kinds it goes through. -/
structure Projectable (rt : Runtime) (artifacts : Attributes) : Prop where
  entries : ∀ a ∈ artifacts, ∀ content, a.2 = .obj content →
    startsWith a.1 "extracted_data/" →
      Iterable (getOr content "entities" (.arr []))
  provided : ∀ report payload,
    getOr artifacts "analysis/report" (.obj []) = .obj report →
      requestPayload rt report = some payload →
        IsDict (getOr payload "provided_fields" (.obj []))
  values : ∀ draft, getMember artifacts "contracts/draft"
    = some (.obj draft) → IsDict (getOr draft "field_values" (.obj []))

-- =============================================================== equations

section Equations

variable {rt : Runtime} {tx : Texts} {p : GraphProjection}
  {report draft : Attributes}

/-- Attributes that the keys do not look at. -/
theorem entityKey_bare {type : EntityType} {name k : String} {v : Json}
    (hk : k ∉ ["domain", "email", "parties", "contract_type"]) :
    entityKey rt tx type name [(k, v)] = .ok (bareKey tx type name) := by
  have hnone : ∀ k' ∈ ["domain", "email", "parties", "contract_type"],
      ∀ d, getOr [(k, v)] k' d = d := by
    intro k' hk' d
    have hne : k ≠ k' := fun h => hk (h ▸ hk')
    unfold getOr getMember
    rw [List.find?_cons_of_neg (by simpa using hne)]
    rfl
  unfold entityKey bareKey
  cases type with
  | organization => simp only [hnone "domain" (by simp)]
  | person => simp only [hnone "email" (by simp)]
  | contract =>
      simp only [hnone "parties" (by simp),
        hnone "contract_type" (by simp)]
      rfl
  | _ => rfl

theorem projectEntry_eq {content : Attributes} {snippet : String}
    {raw : Json} : projectEntry rt tx content snippet p raw
      = .ok (mergeProjections p
        (.concat (entryParts rt tx content snippet raw))) := by
  unfold projectEntry entryParts
  cases parseEntityEntry rt tx raw with
  | none => rw [← merge_concat]; rfl
  | some entry =>
      obtain ⟨etype, name⟩ := entry
      simp only [entityKey_bare (k := "source_file") (by simp)]
      exact congrArg Except.ok addEmail_merge

theorem projectExtracted_eq {artifact : String × Json}
    (h : ∀ content, artifact.2 = .obj content →
      startsWith artifact.1 "extracted_data/" →
        Iterable (getOr content "entities" (.arr []))) :
    projectExtracted rt tx p artifact
      = .ok (mergeProjections p
        (.concat (extractedParts rt tx artifact))) := by
  unfold projectExtracted extractedParts
  obtain ⟨key, doc⟩ := artifact
  cases doc with
  | obj content =>
      dsimp only
      split
      · rename_i hkey
        obtain ⟨entries, hentries⟩ :=
          iterate_succeeds.mpr (h content rfl hkey)
        unfold entriesOf snippetOf
        rw [hentries, ← merge_flatMap]
        exact foldlM_ok fun p raw _ => projectEntry_eq
      · exact congrArg Except.ok merge_nil.symm
  | null => exact congrArg Except.ok merge_nil.symm
  | bool b => exact congrArg Except.ok merge_nil.symm
  | int n => exact congrArg Except.ok merge_nil.symm
  | float r => exact congrArg Except.ok merge_nil.symm
  | str s => exact congrArg Except.ok merge_nil.symm
  | arr xs => exact congrArg Except.ok merge_nil.symm

theorem projectIntention_eq : projectIntention rt tx report p
    = mergeProjections p (.concat (intentionParts rt tx report)) := by
  unfold projectIntention intentionParts
  simp only
  split
  · rw [← merge_concat]
    rfl
  · exact addEmail_merge

/-- One party field. -/
theorem projectParty_eq {snippets : Bool} {names : List String}
    {parties : List ProjectionEntity} {field : String × Json} :
    projectParty rt tx snippets (names, parties, p) field
      = .ok (match (partyFields rt tx [field]).head? with
        | none => (names, parties, p)
        | some f => (names ++ [f.2],
            parties ++ [(p.add (partyEntity tx snippets f)).1],
            (p.add (partyEntity tx snippets f)).2)) := by
  unfold projectParty partyFields
  by_cases hparty : isPartyFieldName tx field.1
  · by_cases hname : strip (strOf rt field.2) = ""
    · simp [hparty, hname]
    · simp [hparty, hname, entityKey_bare, partyEntity]
  · simp [hparty]

theorem partyFields_cons (field : String × Json) (rest : Attributes) :
    partyFields rt tx (field :: rest)
      = partyFields rt tx [field] ++ partyFields rt tx rest := by
  unfold partyFields
  rw [← List.singleton_append, List.filterMap_append]

/-- The loops over party fields, from what they have found so far. -/
theorem projectParties_from {snippets : Bool} {fields : Attributes} :
    ∀ (names : List String) (parties : List ProjectionEntity)
      (p : GraphProjection),
      ∃ more, fields.foldlM (projectParty rt tx snippets)
          (names, parties, p)
        = .ok (names ++ (partyFields rt tx fields).map (·.2),
            parties ++ more,
            mergeProjections p (.concat (((partyFields rt tx fields).map
              (partyEntity tx snippets)).map entityPart)))
        ∧ more.map (·.bucket) = ((partyFields rt tx fields).map
          (partyEntity tx snippets)).map (·.bucket) := by
  induction fields with
  | nil =>
      intro names parties p
      refine ⟨[], ?_, rfl⟩
      rw [← merge_concat]
      simp only [partyFields, List.filterMap_nil, List.map_nil,
        List.append_nil, List.foldl_nil]
      rfl
  | cons field rest ih =>
      intro names parties p
      rw [List.foldlM_cons, partyFields_cons field rest, projectParty_eq]
      cases hfield : partyFields rt tx [field] with
      | nil => exact ih names parties p
      | cons f more =>
          have hone : more = [] := by
            have hlength : (f :: more).length ≤ 1 := by
              rw [← hfield]
              exact List.length_filterMap_le _ _
            exact List.length_eq_zero_iff.mp (by simpa using hlength)
          subst hone
          obtain ⟨found, hfound, hbuckets⟩ := ih (names ++ [f.2])
            (parties ++ [(p.add (partyEntity tx snippets f)).1])
            (p.add (partyEntity tx snippets f)).2
          refine ⟨(p.add (partyEntity tx snippets f)).1 :: found, ?_, ?_⟩
          · simp only [List.head?_cons]
            refine hfound.trans ?_
            rw [add_merge, ← merge_concat, ← merge_concat]
            simp only [List.map_cons, List.append_assoc, List.cons_append,
              List.nil_append, List.foldl_cons]
            rfl
          · simp only [List.singleton_append, List.map_cons, hbuckets,
              add_bucket]

theorem projectParties_eq (rt : Runtime) (tx : Texts)
    (p : GraphProjection) (snippets : Bool) (fields : Attributes) :
    ∃ parties, fields.foldlM (projectParty rt tx snippets) ([], [], p)
        = .ok ((partyFields rt tx fields).map (·.2), parties,
            mergeProjections p (.concat (((partyFields rt tx fields).map
              (partyEntity tx snippets)).map entityPart)))
      ∧ parties.map (·.bucket) = ((partyFields rt tx fields).map
        (partyEntity tx snippets)).map (·.bucket) :=
  projectParties_from [] [] p

/-- A contract after its parties, with their links to it. -/
theorem addContract_merge {ents parties : List ProjectionEntity}
    {contract : ProjectionEntity}
    (hparties : parties.map (·.bucket) = ents.map (·.bucket)) :
    ((mergeProjections p (.concat (ents.map entityPart))).add
        contract).2.linkParties parties
        ((mergeProjections p (.concat (ents.map entityPart))).add contract).1
      = mergeProjections p (.concat (ents.map entityPart
          ++ [entityPart contract] ++ partyParts ents contract)) := by
  rw [linkParties_merge hparties add_bucket, add_merge, ← merge_merge,
    ← merge_last]
  rfl

theorem projectRequest_eq
    (h : ∀ payload, requestPayload rt report = some payload →
      IsDict (getOr payload "provided_fields" (.obj []))) :
    projectRequest rt tx report p
      = .ok (mergeProjections p (.concat (requestParts rt tx report))) := by
  unfold projectRequest requestParts
  unfold requestPayload at h ⊢
  cases hobj : getOr report "action_payload" (.obj []) with
  | obj payload =>
      simp only [hobj] at h ⊢
      by_cases haction : strip (strOf rt (getOr report "action" (.str "")))
        = "create_contract"
      · rw [if_pos haction] at h ⊢
        obtain ⟨provided, hprovided⟩ := itemsOf_succeeds.mpr (h payload rfl)
        obtain ⟨parties, hparties, hbuckets⟩ :=
          projectParties_eq rt tx p true provided
        have hfields : partyFields rt tx provided
            = requestFields rt tx payload := by
          rw [requestFields, itemsOf_members hprovided]
        rw [hfields] at hparties hbuckets
        rw [hprovided]
        simp only [if_pos haction, ok_bind, hparties]
        have hnames : (requestFields rt tx payload).map (·.2) ≠ []
            ↔ (requestFields rt tx payload).map (partyEntity tx true)
              ≠ [] := by simp
        by_cases hany : (requestFields rt tx payload).map
            (partyEntity tx true) ≠ [] ∨ requestType rt payload ≠ ""
        · rw [if_pos hany]
          refine (if_pos (hany.imp_left hnames.mpr)).trans ?_
          refine congrArg Except.ok ?_
          rw [linkEmail_merge add_bucket, addContract_merge hbuckets,
            merge_last]
          rfl
        · rw [if_neg hany]
          refine (if_neg fun h => hany (h.imp_left hnames.mp)).trans ?_
          have hempty : (requestFields rt tx payload).map
              (partyEntity tx true) = [] := by
            by_contra hne
            exact hany (.inl hne)
          rw [hempty]
          rfl
      · rw [if_neg haction, if_neg haction]
        exact congrArg Except.ok merge_nil.symm
  | null => exact congrArg Except.ok merge_nil.symm
  | bool b => exact congrArg Except.ok merge_nil.symm
  | int n => exact congrArg Except.ok merge_nil.symm
  | float r => exact congrArg Except.ok merge_nil.symm
  | str s => exact congrArg Except.ok merge_nil.symm
  | arr xs => exact congrArg Except.ok merge_nil.symm

theorem projectDraft_eq
    (h : IsDict (getOr draft "field_values" (.obj []))) :
    projectDraft rt tx draft p
      = .ok (mergeProjections p (.concat (draftParts rt tx draft))) := by
  obtain ⟨values, hvalues⟩ := itemsOf_succeeds.mpr h
  have hmembers : values = draftValues draft :=
    (itemsOf_members hvalues).symm
  subst hmembers
  obtain ⟨parties, hparties, hbuckets⟩ :=
    projectParties_eq rt tx p false (draftValues draft)
  unfold projectDraft draftParts
  simp only [hvalues, ok_bind, hparties]
  unfold jurisdictionParts
  simp only
  split
  · refine congrArg Except.ok ?_
    rw [link_merge add_bucket add_bucket, addContract_merge hbuckets,
      add_merge, merge_last, merge_last, List.append_assoc]
    rfl
  · refine congrArg Except.ok ?_
    rw [addContract_merge hbuckets, List.append_nil]
    rfl

/-- What the builder makes of a bundle it goes through. -/
theorem buildProjection_eq {artifacts : Attributes}
    (h : Projectable rt artifacts) :
    buildProjectionFromArtifacts rt tx artifacts
      = .ok (mergeProjections .empty
        (.concat (artifactParts rt tx artifacts))) := by
  have hdraft : ∀ p, (match getMember artifacts "contracts/draft" with
      | some (.obj draft) => projectDraft rt tx draft p
      | _ => pure p) = .ok (mergeProjections p (.concat
        (contractParts rt tx (getMember artifacts "contracts/draft")))) := by
    intro p
    unfold contractParts
    split
    · rename_i draft hdraft
      rw [projectDraft_eq (h.values draft hdraft)]
    · exact congrArg Except.ok merge_nil.symm
  unfold buildProjectionFromArtifacts artifactParts
  rw [foldlM_ok fun p artifact hmem =>
    projectExtracted_eq (h.entries artifact hmem), merge_flatMap,
    ← merge_merge, ← merge_merge, ok_bind]
  generalize mergeProjections .empty _ = p
  dsimp only
  split
  · rename_i report hreport
    rw [hreport, projectIntention_eq,
      projectRequest_eq (h.provided report · hreport), merge_merge]
    exact hdraft _
  · rename_i hnot
    have hempty : reportParts rt tx
        (getOr artifacts "analysis/report" (.obj [])) = [] := by
      unfold reportParts
      split
      · rename_i report hreport
        exact absurd hreport (hnot report)
      · rfl
    rw [hempty, merge_nil]
    exact hdraft p

theorem projectExtracted_succeeds {artifact : String × Json} :
    Succeeds (projectExtracted rt tx p artifact)
      ↔ ∀ content, artifact.2 = .obj content →
        startsWith artifact.1 "extracted_data/" →
          Iterable (getOr content "entities" (.arr [])) := by
  refine ⟨?_, fun h => ⟨_, projectExtracted_eq h⟩⟩
  obtain ⟨key, v⟩ := artifact
  rintro h content rfl hkey
  unfold projectExtracted at h
  simp only [if_pos hkey] at h
  obtain ⟨entries, hentries, -⟩ := succeeds_bind.mp h
  exact iterate_succeeds.mp ⟨entries, hentries⟩

theorem projectRequest_succeeds :
    Succeeds (projectRequest rt tx report p)
      ↔ ∀ payload, requestPayload rt report = some payload →
        IsDict (getOr payload "provided_fields" (.obj [])) := by
  refine ⟨?_, fun h => ⟨_, projectRequest_eq h⟩⟩
  intro h payload hpayload
  unfold requestPayload at hpayload
  split at hpayload
  · rename_i payload' hobj
    split at hpayload
    · rename_i haction
      cases hpayload
      unfold projectRequest at h
      simp only [hobj, if_pos haction] at h
      obtain ⟨provided, hprovided, -⟩ := succeeds_bind.mp h
      exact itemsOf_succeeds.mp ⟨provided, hprovided⟩
    · cases hpayload
  · cases hpayload

theorem projectDraft_succeeds : Succeeds (projectDraft rt tx draft p)
    ↔ IsDict (getOr draft "field_values" (.obj [])) := by
  refine ⟨fun h => ?_, fun h => ⟨_, projectDraft_eq h⟩⟩
  obtain ⟨values, hvalues, -⟩ := succeeds_bind.mp h
  exact itemsOf_succeeds.mp ⟨values, hvalues⟩

/-- Nothing else raises. -/
theorem buildProjection_succeeds {artifacts : Attributes} :
    Succeeds (buildProjectionFromArtifacts rt tx artifacts)
      ↔ Projectable rt artifacts := by
  refine ⟨fun h => ?_, fun h => ⟨_, buildProjection_eq h⟩⟩
  obtain ⟨p, hp, hrest⟩ := succeeds_bind.mp h
  have hentries := (succeeds_foldlM (f := projectExtracted rt tx)
    fun _ _ _ => projectExtracted_succeeds).mp ⟨p, hp⟩
  refine ⟨hentries, fun report payload hreport hpayload => ?_,
    fun draft hdraft => ?_⟩
  · simp only [hreport] at hrest
    obtain ⟨q, hq, -⟩ := succeeds_bind.mp hrest
    exact projectRequest_succeeds.mp ⟨q, hq⟩ payload hpayload
  · simp only [hdraft] at hrest
    split at hrest
    · obtain ⟨q, -, hq⟩ := succeeds_bind.mp hrest
      exact projectDraft_succeeds.mp hq
    · exact projectDraft_succeeds.mp hrest

end Equations

end LegalBot.Memory
