/-
The names an entity is resolved with, and those that are kept.

# The three branches

A call that merges stores its name and its aliases as aliases of the row
it merges into. A call that finds the row of its key stores nothing, and
one that creates the row stores the name alone: `resolve_entity` does not
pass the aliases on to `upsert_entity`.

# What is kept

No call removes an alias. `names_kept_iff`: a call keeps every name it
was given exactly when the row of the key knew them all, when there is
nothing to strip in those that the row it merges into did not know, or
when the aliases of a new row are its name once more.
-/
import LegalBot.Memory.Histories

namespace LegalBot.Memory

open Programs

-- ============================================================== statements

/-- The names of a call: its name, and the aliases that are not blank. -/
def givenNames (name : String) (aliases : List String) : List String :=
  name :: aliases.filter fun a => strip a ≠ ""

/-- A text is the canonical name of a row or one of its aliases. -/
def KgEntity.Known (e : KgEntity) (g : Graph) (text : String) : Prop :=
  text = e.canonicalName ∨ ⟨e.id, text⟩ ∈ g.aliases

/-- The row a call returned knows the names, and every alias is kept. -/
structure KeepsNames (g g' : Graph) (row : KgEntity)
    (names : List String) : Prop where
  names : ∀ text ∈ names, row.Known g' text
  aliases : ∀ a ∈ g.aliases, a ∈ g'.aliases

/-- The branch a call takes stores the names, or need not. -/
def NamesRecorded (env : GraphEnv) (g : Graph) (k : EntityKey)
    (name : String) (aliases : List String) : Prop :=
  match g.row k, fuzzyMatch env g k name with
  | some e, _ => ∀ text ∈ givenNames name aliases, e.Known g text
  | none, some m => ∀ text ∈ givenNames name aliases, strip text = text
      ∨ ∃ e ∈ g.entities, e.id = m.id ∧ e.Known g text
  | none, none => ∀ text ∈ givenNames name aliases,
      text = name ∨ text = strip name

-- ============================================================== references

/-- The foreign key holds in every state reached. -/
theorem reaches_aliasRefs {env : GraphEnv}
    {G : IndexAction → GraphState → Prop} {s : GraphState}
    (hs : GraphReaches env G s) : s.graph.AliasRefs :=
  reaches_invariant (fun _ h => by cases h)
    (fun _ _ _ hrefs hplaced => aliasRefs_apply hrefs hplaced.refers) hs

-- ================================================================= branches

section Branches

variable {env : GraphEnv} {g : Graph} {k : EntityKey}
  {name text : String} {aliases : List String} {attrs : Attributes}
  {e : KgEntity}

theorem strip_of_given (hname : strip name ≠ "")
    (h : text ∈ givenNames name aliases) : strip text ≠ "" := by
  rcases List.mem_cons.mp h with rfl | h
  · exact hname
  · exact of_decide_eq_true (List.mem_filter.mp h).2

theorem mem_of_given (h : text ∈ givenNames name aliases) :
    text ∈ name :: aliases :=
  (List.mem_cons.mp h).elim (fun h => h ▸ List.mem_cons_self) fun h =>
    List.mem_cons_of_mem name (List.mem_filter.mp h).1

/-- A fuzzy match is for a name that is not blank. -/
theorem strip_of_fuzzyMatch {m : EntityHit}
    (h : fuzzyMatch env g k name = some m) : strip name ≠ "" := by
  unfold fuzzyMatch at h
  split at h
  · rename_i hcond
    exact hcond.2
  · cases h

/-- What a row knows once it has been given aliases. -/
theorem known_addAliases {names : List String} :
    e.Known (addAliases env e.id g names) text
      ↔ e.Known g text ∨ ∃ n ∈ names, strip n ≠ "" ∧ text = strip n := by
  unfold KgEntity.Known
  rw [mem_addAliases, or_assoc]
  simp only [KgAlias.mk.injEq, true_and]

/-- A row that merges stores what there is nothing to strip in. -/
theorem known_merged (hname : strip name ≠ "")
    (htext : text ∈ givenNames name aliases) :
    e.Known (addAliases env e.id g (name :: aliases)) text
      ↔ strip text = text ∨ e.Known g text := by
  rw [known_addAliases, or_comm]
  refine or_congr_left ⟨?_, fun hstrip => ?_⟩
  · rintro ⟨n, -, -, rfl⟩
    exact strip_strip
  · exact ⟨text, mem_of_given htext, strip_of_given hname htext,
      hstrip.symm⟩

/-- A new row knows its name. -/
theorem known_created (hrefs : g.AliasRefs) (h : g.Valid env)
    (hrow : g.row k = none) (htext : text ∈ givenNames name aliases) :
    (newEntity env g k name attrs).Known
      (addAliases env (newEntity env g k name attrs).id
        ((GraphWrite.entity k name attrs).apply env g) [name]) text
      ↔ text = name ∨ text = strip name := by
  have hfresh : (⟨(newEntity env g k name attrs).id, text⟩ : KgAlias)
      ∉ ((GraphWrite.entity k name attrs).apply env g).aliases := by
    rw [apply_entity_none hrow]
    intro hmem
    obtain ⟨e, he, hid⟩ := hrefs _ hmem
    have hnew : e.id ≠ (newEntity env g k name attrs).id := h.fresh he
    exact hnew hid
  rw [known_addAliases, KgEntity.Known, or_iff_left hfresh]
  constructor
  · rintro (hname | ⟨n, hn, -, hstrip⟩)
    · exact Or.inl hname
    · exact Or.inr (List.mem_singleton.mp hn ▸ hstrip)
  · rcases List.mem_cons.mp htext with rfl | halias
    · exact fun _ => Or.inl rfl
    · refine Or.imp_right fun hstrip => ?_
      refine ⟨name, List.mem_singleton_self _, fun hblank => ?_, hstrip⟩
      have htext := of_decide_eq_true (List.mem_filter.mp halias).2
      rw [hstrip, strip_strip] at htext
      exact htext hblank

/-- No call removes an alias. -/
theorem Resolved.keeps_aliases {g' : Graph}
    (hres : Resolved env g k name aliases attrs e g') :
    ∀ a ∈ g.aliases, a ∈ g'.aliases := by
  intro a ha
  cases hres with
  | found hrow => exact ha
  | merged hrow hmatch he hid howner htype =>
      exact mem_addAliases.mpr (Or.inl ha)
  | created hrow hmatch =>
      rw [apply_entity_none hrow]
      exact mem_addAliases.mpr (Or.inl ha)

/-- A call on a graph that meets its constraints returns, and keeps the
names it was given exactly when its branch stores them or need not. -/
theorem names_kept_iff (h : g.Valid env) (hrefs : g.AliasRefs) :
    Wp (resolveEntity env k name aliases attrs) (fun row g' =>
      KeepsNames g g' row (givenNames name aliases)
        ↔ NamesRecorded env g k name aliases) g := by
  refine (resolveEntity_resolved h).mono fun row g' hres => ?_
  have hkeeps : KeepsNames g g' row (givenNames name aliases)
      ↔ ∀ text ∈ givenNames name aliases, row.Known g' text :=
    ⟨fun hk => hk.names, fun hk => ⟨hk, hres.keeps_aliases⟩⟩
  rw [hkeeps]
  unfold NamesRecorded
  cases hres with
  | found hrow => rw [hrow]
  | merged hrow hmatch he hid howner htype =>
      rename_i m
      rw [hrow, hmatch]
      refine forall₂_congr fun text htext => ?_
      rw [known_merged (strip_of_fuzzyMatch hmatch) htext]
      refine or_congr_right ⟨fun hknown => ⟨row, he, hid, hknown⟩, ?_⟩
      rintro ⟨e', he', hid', hknown⟩
      rwa [h.eq_of_id he he' (hid.trans hid'.symm)]
  | created hrow hmatch =>
      rw [hrow, hmatch]
      exact forall₂_congr fun text htext =>
        known_created hrefs h hrow htext

end Branches

-- =============================================================== scenarios

section Scenarios

/-- A company, and the graph that has its row. -/
def companyKey : EntityKey := ⟨"u1", .organization, "acme"⟩

def companyGraph : Graph :=
  (GraphWrite.entity companyKey "Acme" []).apply (.sample true) .empty

theorem companyGraph_valid : companyGraph.Valid (.sample true) :=
  empty_valid.apply

theorem companyGraph_refs : companyGraph.AliasRefs :=
  aliasRefs_apply (fun _ h => by cases h) trivial

/-- The name the row has is kept. -/
theorem known_name_kept :
    Wp (resolveEntity (.sample true) companyKey "Acme" [] [])
      (fun row g' => KeepsNames companyGraph g' row ["Acme"])
      companyGraph := by
  refine (names_kept_iff companyGraph_valid companyGraph_refs).mono ?_
  refine fun row g' hiff => hiff.mpr fun text htext => Or.inl ?_
  exact List.mem_singleton.mp htext

/-- A new alias of a company that is there is lost. -/
theorem new_alias_lost :
    ∃ row g', companyGraph.Valid (.sample true) ∧ companyGraph.AliasRefs
      ∧ resolveEntity (.sample true) companyKey "Acme" ["Acme Holdings"] []
          companyGraph = .ok (row, g')
      ∧ "Acme Holdings" ∈ givenNames "Acme" ["Acme Holdings"]
      ∧ "Acme Holdings" ≠ row.canonicalName
      ∧ ⟨row.id, "Acme Holdings"⟩ ∉ g'.aliases := by
  refine ⟨⟨0, "u1", .organization, "acme", "Acme", []⟩, companyGraph,
    companyGraph_valid, companyGraph_refs, ?_⟩
  decide +kernel

end Scenarios

end LegalBot.Memory
