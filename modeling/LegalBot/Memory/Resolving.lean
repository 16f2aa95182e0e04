/-
What `resolve_entity` does to the graph.

# Three branches

The call returns the row of the key, merges into another row of the
owner and the type (`Merges`) and gives it the names as aliases, or adds
the row of the key with its name as the alias. `Resolved` has a case a
branch; on tables that meet their constraints the call does not raise
(`resolveEntity_resolved`).
-/
import LegalBot.Memory.Indexing

namespace LegalBot.Memory

open Programs

-- ================================================================= aliases

/-- `_upsert_alias` of a name that is not blank. -/
def addAlias (env : GraphEnv) (id : Uuid) (g : Graph) (name : String) :
    Graph :=
  if strip name = "" then g
  else (GraphWrite.aliasRow ⟨id, strip name⟩).apply env g

/-- The names become aliases of a row. -/
def addAliases (env : GraphEnv) (id : Uuid) (g : Graph)
    (names : List String) : Graph :=
  names.foldl (addAlias env id) g

section Aliases

variable {env : GraphEnv} {g : Graph} {id : Uuid} {name : String}
  {names : List String} {a : KgAlias}

theorem addAliases_cons : addAliases env id g (name :: names)
    = addAliases env id (addAlias env id g name) names := by
  unfold addAliases
  rw [List.foldl_cons]

theorem addAlias_valid (h : g.Valid env) :
    (addAlias env id g name).Valid env := by
  unfold addAlias
  split
  · exact h
  · exact h.apply

theorem addAlias_entities :
    (addAlias env id g name).entities = g.entities := by
  unfold addAlias
  split
  · rfl
  · exact entities_apply (by simp)

theorem addAliases_entities :
    (addAliases env id g names).entities = g.entities := by
  induction names generalizing g with
  | nil => rfl
  | cons name names ih =>
      rw [addAliases_cons]
      exact ih.trans addAlias_entities

theorem addAliases_valid (h : g.Valid env) :
    (addAliases env id g names).Valid env := by
  induction names generalizing g with
  | nil => exact h
  | cons name names ih =>
      rw [addAliases_cons]
      exact ih (addAlias_valid h)

theorem mem_addAlias : a ∈ (addAlias env id g name).aliases
    ↔ a ∈ g.aliases ∨ (strip name ≠ "" ∧ a = ⟨id, strip name⟩) := by
  unfold addAlias
  split
  · rename_i hblank
    exact ⟨Or.inl, fun h => h.elim (fun h => h) fun h =>
      absurd hblank h.1⟩
  · rename_i hname
    unfold GraphWrite.apply
    dsimp only
    split
    · rename_i hthere
      exact ⟨Or.inl, fun h => h.elim (fun h => h) fun h =>
        h.2 ▸ hthere⟩
    · rw [List.mem_append, List.mem_singleton, and_iff_right hname]

/-- The aliases after are those before and the names. -/
theorem mem_addAliases : a ∈ (addAliases env id g names).aliases
    ↔ a ∈ g.aliases ∨ ∃ n ∈ names, strip n ≠ "" ∧ a = ⟨id, strip n⟩ := by
  induction names generalizing g with
  | nil => simp [addAliases]
  | cons name names ih =>
      rw [addAliases_cons, ih, mem_addAlias, or_assoc]
      simp only [List.mem_cons, exists_eq_or_imp]

theorem upsertAliasIf_addAlias (h : g.Valid env) :
    Wp (upsertAliasIf env id name)
      (fun _ g' => g' = addAlias env id g name) g := by
  unfold upsertAliasIf addAlias
  split
  · exact wp_pure.mpr rfl
  · exact upsertAlias_wp h

theorem forM_addAliases (h : g.Valid env) :
    Wp (names.forM (upsertAliasIf env id))
      (fun _ g' => g' = addAliases env id g names) g :=
  Wp.forM_foldl h (fun _ _ => addAlias_valid)
    fun _ _ _ => upsertAliasIf_addAlias

theorem addAliases_writes (hid : ∃ e ∈ g.entities, e.id = id) :
    Writes env IsAlias g (addAliases env id g names) := by
  induction names generalizing g with
  | nil => exact .refl
  | cons name names ih =>
      have hone : Writes env IsAlias g (addAlias env id g name) := by
        unfold addAlias
        split
        · exact .refl
        · exact .one hid ⟨_, rfl⟩
      rw [addAliases_cons]
      exact hone.trans (ih (by rw [addAlias_entities]; exact hid))

end Aliases

-- ================================================================ searching

section Searching

variable {env : GraphEnv} {g : Graph} {owner q : String} {n : Int}
  {hit : EntityHit}

/-- Aliases of other entities do not matter. -/
theorem aliasesOf_filter {g' : Graph} {id : Uuid} {P : KgAlias → Prop}
    [DecidablePred P] (h : g'.aliases = g.aliases.filter P)
    (hP : ∀ a : KgAlias, a.entityId = id → P a) :
    g'.aliasesOf id = g.aliasesOf id := by
  unfold Graph.aliasesOf
  rw [h, List.filter_filter]
  congr 1
  refine List.filter_congr fun a _ => ?_
  by_cases ha : a.entityId = id
  · rw [decide_eq_true ha, decide_eq_true (hP a ha)]
    rfl
  · rw [decide_eq_false ha]
    rfl

/-- A row is found, and scored, by its name and its aliases. -/
theorem entityHit_congr {g' : Graph} {e : KgEntity}
    (h : g'.aliasesOf e.id = g.aliasesOf e.id) :
    entityHit env g' q e = entityHit env g q e := by
  unfold entityHit
  rw [h]

theorem entityScore_congr {g' : Graph} {e : KgEntity}
    (h : g'.aliasesOf e.id = g.aliasesOf e.id) :
    entityScore env g' q e = entityScore env g q e := by
  unfold entityScore joinedAliases
  rw [h]

theorem mem_byScore {α : Type} {score : α → ℚ} {hits : List α} {a : α} :
    a ∈ byScore score hits ↔ a ∈ hits :=
  (List.perm_insertionSort _ hits).mem_iff

theorem mem_of_limitRows {α : Type} {rows : List α} {a : α}
    (h : a ∈ limitRows n rows) : a ∈ rows := by
  unfold limitRows at h
  split at h
  · exact h
  · exact List.mem_of_mem_take h

/-- A hit is a row of the owner. -/
theorem mem_searchEntities (h : hit ∈ searchEntities env g owner q n) :
    ∃ e ∈ g.entities, e.id = hit.id ∧ e.ownerUserId = owner
      ∧ e.type = hit.type := by
  unfold searchEntities at h
  split at h
  · have hmem := mem_byScore.mp (mem_of_limitRows h)
    obtain ⟨e, he, rfl⟩ := List.mem_map.mp hmem
    obtain ⟨he, hcond⟩ := List.mem_filter.mp he
    exact ⟨e, he, rfl, (of_decide_eq_true hcond).1, rfl⟩
  · obtain ⟨e, he, rfl⟩ := List.mem_map.mp h
    obtain ⟨he, hcond⟩ := List.mem_filter.mp (mem_of_limitRows he)
    exact ⟨e, he, rfl, (of_decide_eq_true hcond).1, rfl⟩

theorem fuzzyMatch_some {k : EntityKey} {name : String}
    (h : fuzzyMatch env g k name = some hit) :
    ∃ e ∈ g.entities, e.id = hit.id ∧ e.ownerUserId = k.ownerUserId
      ∧ e.type = k.type := by
  unfold fuzzyMatch at h
  split at h
  · split at h
    · rename_i m hone
      injection h with h
      subst h
      have hmem : m ∈ typedMatches env g k name := by
        rw [hone]
        exact List.mem_singleton_self _
      obtain ⟨hfound, hcond⟩ := List.mem_filter.mp hmem
      obtain ⟨e, he, hid, howner, htype⟩ := mem_searchEntities hfound
      exact ⟨e, he, hid, howner,
        htype.trans (of_decide_eq_true hcond).1⟩
    · cases h
  · cases h

end Searching

-- =============================================================== resolving

/-- The call merges: the key has no row, and one row matches the name. -/
def Merges (env : GraphEnv) (g : Graph) (k : EntityKey) (name : String) :
    Prop := g.row k = none ∧ (fuzzyMatch env g k name).isSome

instance (env : GraphEnv) (g : Graph) (k : EntityKey) (name : String) :
    Decidable (Merges env g k name) := by
  unfold Merges
  infer_instance

section Resolving

variable {env : GraphEnv} {g : Graph} {k : EntityKey} {name : String}
  {aliases : List String} {attrs : Attributes}

theorem scalarOne_id (h : g.Valid env) {e : KgEntity}
    (he : e ∈ g.entities) :
    scalarOne (g.entities.filter fun x => x.id = e.id) = .ok e := by
  rw [Relational.filter_unique h.ids,
    (Relational.find_unique h.ids).mpr ⟨he, rfl⟩]
  rfl

/-- What a call resolves to, and the graph it leaves. -/
inductive Resolved (env : GraphEnv) (g : Graph) (k : EntityKey)
    (name : String) (aliases : List String) (attrs : Attributes) :
    KgEntity → Graph → Prop
  | found {e : KgEntity} : g.row k = some e →
      Resolved env g k name aliases attrs e g
  | merged {m : EntityHit} {e : KgEntity} : g.row k = none →
      fuzzyMatch env g k name = some m → e ∈ g.entities → e.id = m.id →
      e.ownerUserId = k.ownerUserId → e.type = k.type →
      Resolved env g k name aliases attrs e
        (addAliases env e.id g (name :: aliases))
  | created : g.row k = none → fuzzyMatch env g k name = none →
      Resolved env g k name aliases attrs (newEntity env g k name attrs)
        (addAliases env (newEntity env g k name attrs).id
          ((GraphWrite.entity k name attrs).apply env g) [name])

/-- The call returns, and is one of these. -/
theorem resolveEntity_resolved (h : g.Valid env) :
    Wp (resolveEntity env k name aliases attrs)
      (Resolved env g k name aliases attrs) g := by
  unfold resolveEntity
  refine wp_bind.mpr (wp_get.mpr (wp_bind.mpr (wp_liftM.mpr
    ⟨g.row k, ?_, ?_⟩)))
  · rw [h.withKey]
    exact scalarOneOrNone_toList _
  · cases hrow : g.row k with
    | some row => exact wp_pure.mpr (.found hrow)
    | none =>
        refine wp_bind.mpr (wp_get.mpr ?_)
        cases hmatch : fuzzyMatch env g k name with
        | some m =>
            obtain ⟨e, he, hid, howner, htype⟩ := fuzzyMatch_some hmatch
            refine wp_bind.mpr (wp_get.mpr (wp_bind.mpr (wp_liftM.mpr
              ⟨e, hid ▸ scalarOne_id h he, ?_⟩)))
            refine wp_bind.mpr ((upsertAliasIf_addAlias h).mono ?_)
            rintro _ g₁ rfl
            refine wp_bind.mpr ((forM_addAliases (addAlias_valid h)).mono ?_)
            rintro _ g₂ rfl
            rw [← addAliases_cons]
            exact wp_pure.mpr (.merged hrow hmatch he hid howner htype)
        | none =>
            unfold upsertEntity
            refine wp_bind.mpr ((upsertRow_wp h).mono ?_)
            rintro row g₁ ⟨rfl, hadded⟩
            rw [row_apply_entity h, if_pos rfl, hrow] at hadded
            obtain rfl := Option.some.inj hadded
            refine wp_bind.mpr ((forM_addAliases h.apply).mono ?_)
            rintro _ g₂ rfl
            exact wp_pure.mpr (.created hrow hmatch)

theorem resolved_of_ok (h : g.Valid env) {row : KgEntity} {g' : Graph}
    (hcall : resolveEntity env k name aliases attrs g = .ok (row, g')) :
    Resolved env g k name aliases attrs row g' :=
  (resolveEntity_resolved h).wlp row g' hcall

/-- A row of the key is not one to merge into. -/
theorem not_merges_of_row {e : KgEntity} (hrow : g.row k = some e) :
    ¬ Merges env g k name := by
  intro hm
  rw [hm.1] at hrow
  cases hrow

/-- What a call resolves to. -/
structure ResolvesTo (env : GraphEnv) (g : Graph) (k : EntityKey)
    (name : String) (row : KgEntity) (g' : Graph) : Prop where
  owner : row.ownerUserId = k.ownerUserId
  found : ∃ e ∈ g'.entities, e.id = row.id
    ∧ e.ownerUserId = k.ownerUserId ∧ e.type = k.type
    ∧ (Merges env g k name → e ∈ g.entities)
    ∧ (¬ Merges env g k name → e.key = k)

/-- A row of the key is what a call that does not merge resolves to. -/
theorem resolvesTo_key {row : KgEntity} {g' : Graph}
    (hmem : row ∈ g'.entities) (hkey : row.key = k)
    (hnot : ¬ Merges env g k name) : ResolvesTo env g k name row g' := by
  subst hkey
  exact ⟨rfl, row, hmem, rfl, rfl, rfl, fun hm => absurd hm hnot,
    fun _ => rfl⟩

theorem resolveEntity_wp (P : GraphWrite → Prop) (h : g.Valid env)
    (hP : P (.entity k name attrs)) (hA : ∀ w, IsAlias w → P w) :
    Wp (resolveEntity env k name aliases attrs) (fun row g' =>
      Writes env P g g' ∧ ResolvesTo env g k name row g') g := by
  refine (resolveEntity_resolved h).mono fun row g' hres => ?_
  cases hres with
  | found hrow =>
      obtain ⟨hmem, hkey⟩ := h.row_iff.mp hrow
      exact ⟨.refl, resolvesTo_key hmem hkey (not_merges_of_row hrow)⟩
  | merged hrow hmatch he hid howner htype =>
      have hwrites : Writes env IsAlias g
          (addAliases env row.id g (name :: aliases)) :=
        addAliases_writes ⟨row, he, rfl⟩
      refine ⟨hwrites.mono hA, howner, row, hwrites.entities_alias ▸ he,
        rfl, howner, htype, fun _ => he, fun hnot => ?_⟩
      exact absurd ⟨hrow, by rw [hmatch]; rfl⟩ hnot
  | created hrow hmatch =>
      have hmem : newEntity env g k name attrs
          ∈ ((GraphWrite.entity k name attrs).apply env g).entities := by
        rw [apply_entity_none hrow]
        exact List.mem_append_right _ (List.mem_singleton_self _)
      have hfirst : Writes env P g
          ((GraphWrite.entity k name attrs).apply env g) :=
        .one trivial hP
      have hwrites : Writes env IsAlias
          ((GraphWrite.entity k name attrs).apply env g)
          (addAliases env (newEntity env g k name attrs).id
            ((GraphWrite.entity k name attrs).apply env g) [name]) :=
        addAliases_writes ⟨_, hmem, rfl⟩
      have hmem' := hmem
      rw [← hwrites.entities_alias] at hmem'
      refine ⟨hfirst.trans (hwrites.mono hA),
        resolvesTo_key hmem' newEntity_key fun hm => ?_⟩
      rw [Merges, hmatch] at hm
      cases hm.2

end Resolving

end LegalBot.Memory
