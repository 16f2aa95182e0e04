/-
The types of the resources of the report.

# Sources

A mention has one of three kinds of source, a result of a search has the
kind of its mention, and its JSON text says it; the resource made of it
is an `ingestion_item` whatever it says (`resourceOf`).

# Items that stand

Items are added and stay. So the source of a mention of the kind
`ingestion_item` is an item of the owner in every state
(`reaches_stand`), and what is left are the results of the other kinds
(`refs_are_items_iff`).
-/
import LegalBot.Memory.Mentions
import LegalBot.Memory.Parents
import LegalBot.Proofs.ReportedHits

namespace LegalBot.Memory

open Programs

-- =================================================================== items

/-- The id is that of an item of the owner. -/
def Sources.HasItem (src : Sources) (owner : String) (id : Uuid) : Prop :=
  ∃ item ∈ src.items.rows, item.id = id ∧ item.ownerUserId = owner

instance (src : Sources) (owner : String) (id : Uuid) :
    Decidable (src.HasItem owner id) :=
  inferInstanceAs (Decidable (∃ item ∈ src.items.rows,
    item.id = id ∧ item.ownerUserId = owner))

/-- Nothing takes an item away or gives it to another owner. -/
def KeepsItems : IndexAction → GraphState → Prop
  | .store src, s => ∀ item ∈ s.sources.items.rows,
      src.HasItem item.ownerUserId item.id
  | _, _ => True

/-- Mentions of the kind `ingestion_item` name items of their owner. -/
def MentionsStand (s : GraphState) : Prop :=
  ∀ m ∈ s.graph.mentions, m.sourceType = .ingestionItem →
    s.sources.HasItem m.ownerUserId m.sourceId

section Items

variable {env : GraphEnv} {s : GraphState} {a : IndexAction}
  {item : IngestionItem} {runId : Option Uuid} {m : KgMention}

theorem runTarget_item {src : Sources} {runId : Uuid} {run : Run}
    (h : runTarget src runId = .ok (run, item)) :
    item ∈ src.items.rows := by
  unfold runTarget at h
  split at h
  · cases h
  · split at h
    · cases h
    · split at h
      · cases h
      · split at h
        · cases h
        · split at h
          · cases h
          · rename_i hget
            cases h
            exact (Relational.Table.get_some hget).1

/-- What a call that adds mentions of a kind leaves. -/
theorem mem_committed {α : Type} {P : KgMention → Prop} {call : GraphM α}
    {g : Graph} (h : Adds P call) (hm : m ∈ (committed call g).mentions) :
    m ∈ g.mentions ∨ P m := by
  rcases committed_of_wlp (h g) with hsame | ⟨_, -, hadded⟩
  · exact Or.inl (hsame ▸ hm)
  · exact hadded m hm

/-- A mention is from before, or its source is one of the call. -/
theorem mem_mentions_of_apply
    (hm : m ∈ (a.apply env s).graph.mentions) :
    m ∈ s.graph.mentions ∨ ∃ item ∈ s.sources.items.rows,
      ∃ runId, MentionFrom item runId m := by
  cases a with
  | store sources => exact Or.inl hm
  | item itemId =>
      unfold IndexAction.apply indexIngestionItem at hm
      dsimp only at hm
      cases hget : s.sources.items.get itemId with
      | none =>
          rw [hget] at hm
          exact Or.inl hm
      | some item =>
          rw [hget] at hm
          refine (mem_committed (P := MentionFrom item none)
            indexItem_adds hm).imp_right fun hfrom => ?_
          exact ⟨item, (Relational.Table.get_some hget).1, none, hfrom⟩
  | run runId reply =>
      unfold IndexAction.apply indexRun at hm
      dsimp only at hm
      cases htarget : runTarget s.sources runId with
      | error reason =>
          rw [htarget] at hm
          exact Or.inl hm
      | ok target =>
          obtain ⟨run, item⟩ := target
          rw [htarget] at hm
          refine (mem_committed (P := MentionFrom item (some run.id))
            indexRunOf_adds hm).imp_right fun hfrom => ?_
          exact ⟨item, runTarget_item htarget, _, hfrom⟩

theorem hasItem_of_apply (hkeeps : KeepsItems a s) {owner : String}
    {id : Uuid} (h : s.sources.HasItem owner id) :
    (a.apply env s).sources.HasItem owner id := by
  cases a with
  | store sources =>
      obtain ⟨item, hitem, rfl, rfl⟩ := h
      exact hkeeps item hitem
  | item itemId => exact h
  | run runId reply => exact h

/-- The item of a mention of the kind is an item of its owner. -/
theorem MentionFrom.stands {src : Sources} (h : MentionFrom item runId m)
    (hitem : item ∈ src.items.rows)
    (hkind : m.sourceType = .ingestionItem) :
    src.HasItem m.ownerUserId m.sourceId := by
  obtain ⟨howner, hsource⟩ := h
  rw [hkind] at hsource
  exact ⟨item, hitem, hsource.symm, howner.symm⟩

/-- An action keeps the items of the mentions. -/
theorem stand_apply (hkeeps : KeepsItems a s) (h : MentionsStand s) :
    MentionsStand (a.apply env s) := by
  intro m hm hkind
  refine hasItem_of_apply hkeeps ?_
  rcases mem_mentions_of_apply hm with hold | ⟨item, hitem, _, hfrom⟩
  · exact h m hold hkind
  · exact hfrom.stands hitem hkind

theorem reaches_stand (hs : GraphReaches env KeepsItems s) :
    MentionsStand s := by
  refine Lts.Reachable.invariant (P := MentionsStand)
    (fun _ hm => absurd hm List.not_mem_nil) ?_ hs
  intro s a s' _ h hkeeps hstep
  injection hstep with hstep
  subst hstep
  exact stand_apply hkeeps h

end Items

-- ================================================================= results

section Results

variable {env : GraphEnv} {g : Graph} {query owner : String}
  {k : Option Int} {results : List SearchResult} {r : SearchResult}

theorem mem_foldl_firstOfSource {found : List SearchResult} :
    ∀ {results : List SearchResult},
      r ∈ found.foldl firstOfSource results → r ∈ results ∨ r ∈ found := by
  induction found with
  | nil => exact fun {_} h => Or.inl h
  | cons r' rest ih =>
      intro results h
      rcases ih h with h | h
      · unfold firstOfSource at h
        split at h
        · exact Or.inl h
        · refine (List.mem_append.mp h).imp_right fun h => ?_
          rw [List.mem_singleton.mp h]
          exact List.mem_cons_self
      · exact Or.inr (List.mem_cons_of_mem r' h)

/-- A result is that of a mention of the owner. -/
theorem mention_of_result
    (h : searchRelated env g query owner k = .ok results)
    (hr : r ∈ results) :
    ∃ m ∈ g.mentions, m.ownerUserId = owner
      ∧ m.sourceType = r.sourceType ∧ m.sourceId = r.sourceId := by
  unfold searchRelated at h
  dsimp only at h
  split at h
  · cases h
    cases hr
  · split at h
    · cases h
    · injection h with h
      rw [← h] at hr
      have hfound := mem_byScore.mp (List.mem_of_mem_take hr)
      rcases mem_foldl_firstOfSource hfound with hnil | hrow
      · cases hnil
      · obtain ⟨row, hmention, rfl⟩ := List.mem_map.mp hrow
        unfold Graph.mentionsOf at hmention
        obtain ⟨m, hm, hpair⟩ := List.mem_flatMap.mp hmention
        obtain ⟨e, -, rfl⟩ := List.mem_map.mp hpair
        obtain ⟨hm, hcond⟩ := List.mem_filter.mp hm
        exact ⟨m, hm, (of_decide_eq_true hcond).1, rfl, rfl⟩

end Results

end LegalBot.Memory

namespace LegalBot.Stages

open Memory

-- ============================================================== statements

/-- The resources of searches. -/
def resourcesOn (rt : Runtime) (floats : FloatText)
    (searches : List (String × SearchOutcome)) :
    Option (List ResourceRef) := do
  let steps ← researchSteps rt floats.repr
    (searches.map fun search => searchMessage floats search.1 search.2)
  resourcesFromResearch rt floats.repr steps

/-- Resources of the type `ingestion_item` are items of the owner. -/
def RefsAreItems (rt : Runtime) (floats : FloatText) (s : GraphState)
    (owner : String) (searches : List (String × SearchOutcome)) : Prop :=
  ∃ resources, resourcesOn rt floats searches = some resources
    ∧ ∀ r ∈ resources, r.type = .ingestionItem →
      ∃ item ∈ s.sources.items.rows, toString item.id = r.ref
        ∧ item.ownerUserId = owner

/-- The search is one of the owner, in the state. -/
def SearchOf (env : GraphEnv) (s : GraphState) (owner : String)
    (search : String × SearchOutcome) : Prop :=
  ∃ query k, searchRelatedDocs env s.graph (some owner) query k
    = .ok search.2

/-- A result is of the kind that resources are said to be, or has the id
of an item all the same. -/
def ResultOfItem (s : GraphState) (owner : String) (r : SearchResult) :
    Prop :=
  r.sourceType = .ingestionItem ∨ s.sources.HasItem owner r.sourceId

section References

variable {rt : Runtime} {floats : FloatText} {env : GraphEnv}
  {s : GraphState} {owner : String}
  {searches : List (String × SearchOutcome)}

/-- A result of the kind `ingestion_item` is an item of the owner. -/
theorem item_of_result (hs : GraphReaches env KeepsItems s)
    {search : String × SearchOutcome} (h : SearchOf env s owner search)
    {r : SearchResult} (hr : r ∈ search.2.results)
    (hitem : ResultOfItem s owner r) :
    s.sources.HasItem owner r.sourceId := by
  rcases hitem with hkind | hitem
  · obtain ⟨query, k, hsearch⟩ := h
    unfold searchRelatedDocs at hsearch
    split at hsearch
    · injection hsearch with hsearch
      rw [← hsearch] at hr
      cases hr
    · obtain ⟨results, hresults, hfound⟩ : ∃ results,
          searchRelated env s.graph query ((some owner).getD "")
            (some (searchLimit env k)) = .ok results
          ∧ .found query results = search.2 := by
        revert hsearch
        cases searchRelated env s.graph query ((some owner).getD "")
            (some (searchLimit env k)) with
        | error e =>
            intro h
            cases h
        | ok results =>
            intro h
            injection h with h
            exact ⟨results, rfl, h⟩
      rw [← hfound] at hr
      obtain ⟨m, hm, howner, htype, hid⟩ := mention_of_result hresults hr
      have hstands := reaches_stand hs m hm (htype.trans hkind)
      rw [howner, hid] at hstands
      exact hstands
  · exact hitem

/-- A resource that was added is one of those that were to be. -/
theorem mem_foldl_addResource {found : List ResourceRef}
    {r : ResourceRef} : ∀ {resources : List ResourceRef},
      r ∈ found.foldl addResource resources → r ∈ resources ∨ r ∈ found := by
  induction found with
  | nil => exact fun {_} h => Or.inl h
  | cons r' rest ih =>
      intro resources h
      rcases ih h with h | h
      · unfold addResource at h
        split at h
        · exact Or.inl h
        · refine (List.mem_append.mp h).imp_right fun h => ?_
          rw [List.mem_singleton.mp h]
          exact List.mem_cons_self
      · exact Or.inr (List.mem_cons_of_mem r' h)

/-- The resources are those of the results of the searches that fit, and
have all their references. -/
theorem resourcesOn_some (rt : Runtime) (floats : FloatText)
    (searches : List (String × SearchOutcome)) :
    ∃ resources, resourcesOn rt floats searches = some resources
      ∧ (∀ r ∈ resources, ∃ search ∈ searches, FitsFinding floats search
        ∧ ∃ hit ∈ search.2.results, r = resourceOf hit)
      ∧ ∀ search ∈ searches, FitsFinding floats search →
        ∀ hit ∈ search.2.results,
          ∃ r ∈ resources, r.ref = toString hit.sourceId := by
  obtain ⟨steps, hsteps, hresources⟩ :=
    resources_of_searches rt floats searches
  have hsome : resourcesOn rt floats searches
      = resourcesFromResearch rt floats.repr steps := by
    unfold resourcesOn
    rw [hsteps]
    rfl
  refine ⟨_, hsome.trans (hresources []), ?_, ?_⟩
  · intro r hr
    rcases mem_foldl_addResource hr with hnil | hr
    · cases hnil
    · obtain ⟨hit, hhit, rfl⟩ := List.mem_map.mp hr
      obtain ⟨search, hsearch, hhit⟩ := List.mem_flatMap.mp hhit
      obtain ⟨hsearch, hfits⟩ := List.mem_filter.mp hsearch
      exact ⟨search, hsearch, of_decide_eq_true hfits, hit, hhit, rfl⟩
  · intro search hsearch hfits hit hhit
    have hkept : search ∈ fitting floats searches :=
      List.mem_filter.mpr ⟨hsearch, decide_eq_true hfits⟩
    have href : toString hit.sourceId
        ∈ (foundRefs (fitting floats searches)).eraseDups :=
      List.mem_eraseDups.mpr (List.mem_flatMap.mpr
        ⟨search, hkept, List.mem_map_of_mem hhit⟩)
    have hrefs := refs_foldl
      ((fitting floats searches).flatMap (·.2.results))
      fun s (hs : s ∈ []) => absurd hs List.not_mem_nil
    unfold foundRefs at href
    rw [← List.map_flatMap] at href
    exact List.mem_map.mp (hrefs.symm ▸ href)

/-- The results of a search that fits are items, if the references are. -/
theorem RefsAreItems.hasItem
    (h : RefsAreItems rt floats s owner searches) :
    ∀ search ∈ searches, FitsFinding floats search →
      ∀ hit ∈ search.2.results, s.sources.HasItem owner hit.sourceId := by
  obtain ⟨resources, hsome, hfrom, hall⟩ :=
    resourcesOn_some rt floats searches
  obtain ⟨resources', hsome', hitems⟩ := h
  rw [hsome] at hsome'
  injection hsome' with hsame
  rw [← hsame] at hitems
  intro search hsearch hfits hit hhit
  obtain ⟨r, hr, href⟩ := hall search hsearch hfits hit hhit
  obtain ⟨_, -, -, _, -, hresource⟩ := hfrom r hr
  obtain ⟨item, hitem, hid, howner⟩ := hitems r hr (hresource ▸ rfl)
  have hsame := itemKey_injective
    (congrArg ("ingestion_item:" ++ ·) (hid.trans href))
  exact ⟨item, hitem, hsame, howner⟩

/-- The references are items exactly when every result of a search that
fits a finding is of the kind, or has the id of an item. -/
theorem refs_are_items_iff (rt : Runtime) (floats : FloatText)
    (hs : GraphReaches env KeepsItems s)
    (hsearches : ∀ search ∈ searches, SearchOf env s owner search) :
    RefsAreItems rt floats s owner searches
      ↔ ∀ search ∈ searches, FitsFinding floats search →
        ∀ hit ∈ search.2.results, ResultOfItem s owner hit := by
  constructor
  · exact fun h search hsearch hfits hit hhit =>
      Or.inr (h.hasItem search hsearch hfits hit hhit)
  · intro hresults
    obtain ⟨resources, hsome, hfrom, -⟩ :=
      resourcesOn_some rt floats searches
    refine ⟨resources, hsome, fun r hr _ => ?_⟩
    obtain ⟨search, hsearch, hfits, hit, hhit, rfl⟩ := hfrom r hr
    obtain ⟨item, hitem, hid, howner⟩ := item_of_result hs
      (hsearches search hsearch) hhit (hresults search hsearch hfits hit hhit)
    exact ⟨item, hitem, congrArg toString hid, howner⟩

end References

end LegalBot.Stages

namespace LegalBot.Memory

-- ================================================================ scenarios

/-- A message with an attachment. -/
def Sources.withAttachment : Sources :=
  { Sources.empty with
    items := ⟨[{ IngestionItem.sample 1 "u1" none none with
      attachments := [⟨20, "draft.pdf", none, none⟩] }], by decide⟩ }

/-- It is stored and indexed. -/
def GraphState.withAttachment : GraphState :=
  GraphState.init.after (.sample true) [.store .withAttachment, .item 1]

theorem withAttachment_reaches :
    GraphReaches (.sample true) KeepsItems GraphState.withAttachment := by
  have hstored : GraphReaches (.sample true) KeepsItems
      ((IndexAction.store .withAttachment).apply (.sample true)
        GraphState.init) :=
    .step (.store .withAttachment) .init
      (fun _ h => absurd h List.not_mem_nil) rfl
  exact .step (.item 1) hstored trivial rfl

end LegalBot.Memory

namespace LegalBot.Stages

open Memory

/-- A search for the name of the attachment. -/
def draftSearch : String × SearchOutcome :=
  ("call_1", .found "draft.pdf" [
    { sourceType := .ingestionAttachment, sourceId := 20
      snippet := some "draft.pdf", entityId := 2, entityType := .attachment
      entityName := "draft.pdf", score := 1 }])

/-- A search for the title of the message. -/
def leaseSearch : String × SearchOutcome :=
  ("call_1", .found "Lease" [
    { sourceType := .ingestionItem, sourceId := 1
      snippet := some "Lease", entityId := 0, entityType := .email
      entityName := "Lease", score := 1 }])

theorem draftSearch_of :
    SearchOf (.sample true) .withAttachment "u1" draftSearch :=
  ⟨"draft.pdf", none, by decide +kernel⟩

theorem leaseSearch_of :
    SearchOf (.sample true) .withAttachment "u1" leaseSearch :=
  ⟨"Lease", none, by decide +kernel⟩

/-- The attachment is reported as an item. -/
theorem attachment_reported_as_item :
    GraphReaches (.sample true) KeepsItems .withAttachment
      ∧ SearchOf (.sample true) .withAttachment "u1" draftSearch
      ∧ ¬ RefsAreItems Runtime.sample FloatText.sample .withAttachment "u1"
        [draftSearch] := by
  refine ⟨withAttachment_reaches, draftSearch_of, fun hitems => ?_⟩
  have hfits : FitsFinding FloatText.sample draftSearch := by
    decide +kernel
  obtain ⟨item, hitem, hid, -⟩ := hitems.hasItem draftSearch
    List.mem_cons_self hfits _ List.mem_cons_self
  have hnone : ∀ item ∈ GraphState.withAttachment.sources.items.rows,
      item.id ≠ 20 := by decide +kernel
  exact hnone item hitem hid

/-- The message is reported as the item it is. -/
theorem message_reported :
    RefsAreItems Runtime.sample FloatText.sample .withAttachment "u1"
      [leaseSearch] := by
  refine (refs_are_items_iff Runtime.sample FloatText.sample
    withAttachment_reaches fun search h => ?_).mpr ?_
  · rw [List.mem_singleton.mp h]
    exact leaseSearch_of
  · intro search h _ hit hhit
    rw [List.mem_singleton.mp h] at hhit
    rw [List.mem_singleton.mp hhit]
    exact Or.inl rfl

end LegalBot.Stages
