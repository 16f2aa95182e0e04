/-
Tenants do not meet in the knowledge graph.

# What a row may name

Edges and mentions name entities by id. `Graph.Owned` says that the
entities they name are of their own owner. A write is about entities
that are there under its owner (`GraphWrite.Placed`), whatever found
them, so every write keeps it (`owned_apply`) and so does every history
(`reaches_owned`).

# What a search reads

`Graph.part owner` is what of a graph is an owner's: its entities, their
aliases, its edges and mentions. A search reads the two first and the
mentions; it joins mentions with entities by id alone, and meets only
entities of the owner because of `Graph.Owned` (`mentionsOf_part`). So
the rest of the graph may be anything (`searchRelated_part`).
-/
import LegalBot.Memory.Histories

namespace LegalBot.Memory

open Programs

-- ================================================================== owners

/-- There is an entity of the id, and it is the owner's. -/
def Graph.Names (g : Graph) (owner : String) (id : Uuid) : Prop :=
  (∃ e ∈ g.entities, e.id = id)
    ∧ ∀ e ∈ g.entities, e.id = id → e.ownerUserId = owner

/-- Edges and mentions name entities of their owner. -/
structure Graph.Owned (g : Graph) : Prop where
  edges : ∀ e ∈ g.edges,
    g.Names e.ownerUserId e.srcId ∧ g.Names e.ownerUserId e.dstId
  mentions : ∀ m ∈ g.mentions, g.Names m.ownerUserId m.entityId

section Owners

variable {env : GraphEnv} {g : Graph} {w : GraphWrite} {owner : String}
  {id : Uuid}

theorem Graph.Valid.names_iff (h : g.Valid env) :
    g.Names owner id ↔ g.Has owner id := by
  constructor
  · rintro ⟨⟨e, he, hid⟩, howner⟩
    exact ⟨e, he, hid, howner e he hid⟩
  · rintro ⟨e, he, hid, howner⟩
    refine ⟨⟨e, he, hid⟩, fun e' he' hid' => ?_⟩
    rw [h.eq_of_id he' he (hid'.trans hid.symm)]
    exact howner

theorem apply_has (h : g.Has owner id) : (w.apply env g).Has owner id := by
  obtain ⟨e, he, hid, howner⟩ := h
  obtain ⟨e', he', hid', hkey⟩ := apply_keeps (w := w) he
  exact ⟨e', he', hid'.trans hid,
    (congrArg EntityKey.ownerUserId hkey).trans howner⟩

/-- Every write keeps the owners apart. -/
theorem owned_apply (h : g.Valid env) (ho : g.Owned)
    (hplaced : w.Placed g) : (w.apply env g).Owned := by
  have hnames : ∀ {owner id}, g.Has owner id →
      (w.apply env g).Names owner id := fun hhas =>
    h.apply.names_iff.mpr (apply_has hhas)
  constructor
  · intro e he
    rcases mem_edges_apply he with hold | rfl
    · obtain ⟨hsrc, hdst⟩ := ho.edges e hold
      exact ⟨hnames (h.names_iff.mp hsrc), hnames (h.names_iff.mp hdst)⟩
    · exact ⟨hnames hplaced.1, hnames hplaced.2⟩
  · intro m hm
    rcases mem_mentions_apply hm with hold | rfl
    · exact hnames (h.names_iff.mp (ho.mentions m hold))
    · exact hnames hplaced

theorem reaches_owned {G : IndexAction → GraphState → Prop}
    {s : GraphState} (hs : GraphReaches env G s) : s.graph.Owned :=
  reaches_invariant ⟨(fun _ h => by cases h), (fun _ h => by cases h)⟩
    (fun _ _ h ho hplaced => owned_apply h ho hplaced) hs

/-- A resolved entity is the owner's. -/
theorem resolveEntity_owner (h : g.Valid env) {k : EntityKey}
    {name : String} {aliases : List String} {attrs : Attributes} :
    Wp (resolveEntity env k name aliases attrs)
      (fun row _ => row.ownerUserId = k.ownerUserId) g :=
  (resolveEntity_wp AnyWrite h trivial fun _ _ => trivial).mono
    fun _ _ hrow => hrow.2.owner

end Owners

-- ============================================================= what is read

/-- What of a graph is an owner's. -/
def Graph.part (owner : String) (g : Graph) : Graph where
  entities := g.entities.filter fun e => e.ownerUserId = owner
  aliases := g.aliases.filter fun a =>
    ∃ e ∈ g.entities, e.ownerUserId = owner ∧ e.id = a.entityId
  edges := g.edges.filter fun e => e.ownerUserId = owner
  mentions := g.mentions.filter fun m => m.ownerUserId = owner
  drawn := 0

section Search

variable {env : GraphEnv} {g : Graph} {owner q : String} {n : Int}
  {e : KgEntity}

theorem aliasesOf_part (he : e ∈ g.entities) (howner : e.ownerUserId = owner) :
    (g.part owner).aliasesOf e.id = g.aliasesOf e.id :=
  aliasesOf_filter rfl fun _ ha => ⟨e, he, howner, ha.symm⟩

/-- A filter of the owner's entities. -/
theorem filter_part {P P' : KgEntity → Prop} [DecidablePred P]
    [DecidablePred P']
    (h : ∀ e ∈ g.entities, e.ownerUserId = owner → (P e ↔ P' e)) :
    ((g.part owner).entities.filter fun e => e.ownerUserId = owner ∧ P e)
      = g.entities.filter fun e => e.ownerUserId = owner ∧ P' e := by
  unfold Graph.part
  rw [List.filter_filter]
  refine List.filter_congr fun e he => ?_
  by_cases howner : e.ownerUserId = owner
  · simp only [howner, h e he howner, decide_true, true_and, Bool.and_true]
  · simp only [howner, decide_false, false_and, Bool.and_false]

theorem pgSearchEntities_part :
    pgSearchEntities env (g.part owner) owner q n
      = pgSearchEntities env g owner q n := by
  have hfound : ((g.part owner).entities.filter fun e =>
      e.ownerUserId = owner ∧ entityHit env (g.part owner) q e)
      = g.entities.filter fun e =>
        e.ownerUserId = owner ∧ entityHit env g q e := by
    refine filter_part fun e he howner => ?_
    rw [entityHit_congr (aliasesOf_part he howner)]
  have hhits : ((g.entities.filter fun e =>
      e.ownerUserId = owner ∧ entityHit env g q e).map fun e =>
        EntityHit.mk e.id e.type e.canonicalName
          (entityScore env (g.part owner) q e))
      = (g.entities.filter fun e =>
        e.ownerUserId = owner ∧ entityHit env g q e).map fun e =>
          EntityHit.mk e.id e.type e.canonicalName
            (entityScore env g q e) := by
    refine List.map_congr_left fun e he => ?_
    obtain ⟨he, hcond⟩ := List.mem_filter.mp he
    rw [entityScore_congr (aliasesOf_part he (of_decide_eq_true hcond).1)]
  unfold pgSearchEntities
  simp only
  rw [hfound, hhits]

theorem likeSearchEntities_part :
    likeSearchEntities env (g.part owner) owner q n
      = likeSearchEntities env g owner q n := by
  unfold likeSearchEntities
  congr 2
  refine filter_part fun e he howner => ?_
  rw [aliasesOf_part he howner]

/-- Both branches find the same in the owner's part. -/
theorem searchEntities_part :
    searchEntities env (g.part owner) owner q n
      = searchEntities env g owner q n := by
  unfold searchEntities
  rw [pgSearchEntities_part, likeSearchEntities_part]

/-- A mention of the owner is joined with entities of the owner. -/
theorem mentionsOf_part (ho : g.Owned) {ids : List Uuid} :
    (g.part owner).mentionsOf owner ids = g.mentionsOf owner ids := by
  have hmentions : (g.part owner).mentions.filter
      (fun m => m.ownerUserId = owner ∧ m.entityId ∈ ids)
      = g.mentions.filter
        fun m => m.ownerUserId = owner ∧ m.entityId ∈ ids := by
    unfold Graph.part
    rw [List.filter_filter]
    refine List.filter_congr fun m _ => ?_
    by_cases howner : m.ownerUserId = owner
    · simp only [howner, decide_true, Bool.and_true]
    · simp only [howner, decide_false, false_and, Bool.and_false]
  unfold Graph.mentionsOf
  rw [hmentions]
  refine List.flatMap_congr fun m hm => ?_
  obtain ⟨hm, hcond⟩ := List.mem_filter.mp hm
  have howner := (of_decide_eq_true hcond).1
  congr 1
  unfold Graph.part
  rw [List.filter_filter]
  refine List.filter_congr fun e he => ?_
  by_cases hid : e.id = m.entityId
  · have hown := ((ho.mentions m hm).2 e he hid).trans howner
    rw [decide_eq_true hid, decide_eq_true hown]
    rfl
  · rw [decide_eq_false hid]
    rfl

/-- A search reads the owner's part. -/
theorem searchRelated_part (ho : g.Owned) {query : String}
    {k : Option Int} :
    searchRelated env (g.part owner) query owner k
      = searchRelated env g query owner k := by
  unfold searchRelated
  simp only [searchEntities_part, mentionsOf_part ho]

end Search

-- =============================================================== isolation

/-- The same rows of one owner. -/
structure SameOf (owner : String) (s t : GraphState) : Prop where
  items : (s.sources.items.rows.filter fun i => i.ownerUserId = owner)
    = t.sources.items.rows.filter fun i => i.ownerUserId = owner
  entities : (s.graph.part owner).entities = (t.graph.part owner).entities
  aliases : (s.graph.part owner).aliases = (t.graph.part owner).aliases
  edges : (s.graph.part owner).edges = (t.graph.part owner).edges
  mentions : (s.graph.part owner).mentions = (t.graph.part owner).mentions

theorem SameOf.part {owner : String} {s t : GraphState}
    (h : SameOf owner s t) : s.graph.part owner = t.graph.part owner := by
  have hs : ∀ g : Graph, g.part owner
      = ⟨(g.part owner).entities, (g.part owner).aliases,
        (g.part owner).edges, (g.part owner).mentions, 0⟩ := fun _ => rfl
  rw [hs s.graph, hs t.graph, h.entities, h.aliases, h.edges, h.mentions]

/-- Two tenants with the same message. -/
def Sources.twoTenants : Sources :=
  { Sources.empty with
    items := ⟨[.sample 1 "u1" none none, .sample 2 "u2" none none],
      by decide⟩ }

end LegalBot.Memory
