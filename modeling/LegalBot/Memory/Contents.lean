/-
The tables of the graph without their ids.

# What the tables say

An entity is known by its key, and aliases and edges by the keys of the
entities they are of. `Contents` is what remains of the tables when the
generated ids are taken out; `Contents.upsert`, `addAlias` and `addEdge`
are what the three writers are for.

# Refinement

On tables that meet their constraints an id stands for one key
(`keyIn_iff`), so each write does to the contents what the writer is for
(`contents_entity`, `contents_alias`, `contents_edge`), whatever ids are
drawn.
-/
import LegalBot.Memory.Writes

namespace LegalBot.Memory

open Programs

-- ================================================================ contents

/-- An entity without its id. -/
structure EntityContent where
  key : EntityKey
  canonicalName : String
  attributes : Attributes
  deriving DecidableEq

/-- The arguments of `add_edge` besides the two ids. -/
structure EdgeArgs where
  ownerUserId : String
  relation : Relation
  attributes : Attributes
  confidence : ℚ
  origin : String
  sourceType : SourceType
  sourceId : Uuid
  deriving DecidableEq

/-- The columns of `uq_kg_edge_dedup`, with keys for the ids. -/
structure EdgeContentKey where
  ownerUserId : String
  src : Option EntityKey
  dst : Option EntityKey
  relation : Relation
  sourceType : SourceType
  sourceId : Uuid
  deriving DecidableEq

/-- An edge between keys. -/
structure EdgeContent where
  src : Option EntityKey
  dst : Option EntityKey
  args : EdgeArgs
  deriving DecidableEq

def EdgeContent.key (d : EdgeContent) : EdgeContentKey :=
  ⟨d.args.ownerUserId, d.src, d.dst, d.args.relation, d.args.sourceType,
    d.args.sourceId⟩

/-- The three tables without ids. -/
structure Contents where
  entities : List EntityContent
  aliases : List (Option EntityKey × String)
  edges : List EdgeContent
  deriving DecidableEq

/-- There is an entity of the key. -/
def Contents.Has (t : Contents) (k : EntityKey) : Prop :=
  ∃ x ∈ t.entities, x.key = k

instance (t : Contents) (k : EntityKey) : Decidable (t.Has k) := by
  unfold Contents.Has
  infer_instance

/-- The entity of the key gets the name and the attributes. -/
def Contents.upsert (k : EntityKey) (name : String) (attrs : Attributes)
    (t : Contents) : Contents :=
  if t.Has k then
    { t with entities := t.entities.map fun x =>
        if x.key = k then ⟨k, name, attrs⟩ else x }
  else { t with entities := t.entities ++ [⟨k, name, attrs⟩] }

/-- The entity of the key has the alias. -/
def Contents.addAlias (k : EntityKey) (name : String) (t : Contents) :
    Contents :=
  if (some k, name) ∈ t.aliases then t
  else { t with aliases := t.aliases ++ [(some k, name)] }

/-- There is an edge of this key. -/
def Contents.addEdge (d : EdgeContent) (t : Contents) : Contents :=
  if ∃ x ∈ t.edges, x.key = d.key then t
  else { t with edges := t.edges ++ [d] }

-- ================================================================== views

def KgEntity.content (e : KgEntity) : EntityContent :=
  ⟨e.key, e.canonicalName, e.attributes⟩

def KgEdge.args (d : KgEdge) : EdgeArgs :=
  ⟨d.ownerUserId, d.relation, d.attributes, d.confidence, d.origin,
    d.sourceType, d.sourceId⟩

/-- The edge between two ids. -/
def EdgeArgs.edge (args : EdgeArgs) (srcId dstId : Uuid) : KgEdge where
  ownerUserId := args.ownerUserId
  srcId := srcId
  dstId := dstId
  relation := args.relation
  attributes := args.attributes
  confidence := args.confidence
  origin := args.origin
  sourceType := args.sourceType
  sourceId := args.sourceId

/-- The key of the entity of an id. -/
def keyIn (entities : List KgEntity) (id : Uuid) : Option EntityKey :=
  (entities.find? fun e => e.id = id).map KgEntity.key

def edgeContent (entities : List KgEntity) (d : KgEdge) : EdgeContent :=
  ⟨keyIn entities d.srcId, keyIn entities d.dstId, d.args⟩

/-- The contents of the tables. -/
def Graph.contents (g : Graph) : Contents where
  entities := g.entities.map KgEntity.content
  aliases := g.aliases.map fun a =>
    (keyIn g.entities a.entityId, a.aliasName)
  edges := g.edges.map (edgeContent g.entities)

-- ==================================================================== keys

section Keys

variable {env : GraphEnv} {g : Graph} {k : EntityKey} {id : Uuid}
  {e : KgEntity} {w : GraphWrite}

theorem keyIn_iff (h : g.Valid env) :
    keyIn g.entities id = some k ↔ ∃ e ∈ g.entities, e.id = id ∧ e.key = k := by
  unfold keyIn
  rw [Option.map_eq_some_iff]
  constructor
  · rintro ⟨e, hfind, hkey⟩
    obtain ⟨he, hid⟩ := (Relational.find_unique h.ids).mp hfind
    exact ⟨e, he, hid, hkey⟩
  · rintro ⟨e, he, hid, hkey⟩
    exact ⟨e, (Relational.find_unique h.ids).mpr ⟨he, hid⟩, hkey⟩

theorem keyIn_row (h : g.Valid env) (hrow : g.row k = some e) :
    keyIn g.entities e.id = some k := by
  obtain ⟨he, hkey⟩ := h.row_iff.mp hrow
  exact (keyIn_iff h).mpr ⟨e, he, rfl, hkey⟩

/-- An id that stands for the key of a row is its id. -/
theorem id_of_keyIn (h : g.Valid env) (hrow : g.row k = some e)
    (hid : keyIn g.entities id = some k) : id = e.id := by
  obtain ⟨e', he', rfl, hkey⟩ := (keyIn_iff h).mp hid
  cases (h.row_iff.mpr ⟨he', hkey⟩).symm.trans hrow
  rfl

/-- An id that is there stands for the same key after a write. -/
theorem keyIn_apply (h : g.Valid env) (hid : ∃ e ∈ g.entities, e.id = id) :
    keyIn (w.apply env g).entities id = keyIn g.entities id := by
  obtain ⟨e, he, rfl⟩ := hid
  obtain ⟨e', he', hid', hkey⟩ := apply_keeps (w := w) he
  rw [(keyIn_iff h).mpr ⟨e, he, rfl, rfl⟩]
  exact (keyIn_iff h.apply).mpr ⟨e', he', hid', hkey⟩

theorem Graph.key_of_row (h : g.row k = some e) : e.key = k := by
  unfold Graph.row at h
  simpa using List.find?_some h

theorem has_contents : g.contents.Has k ↔ ∃ e, g.row k = some e := by
  constructor
  · rintro ⟨x, hx, hkey⟩
    obtain ⟨e, he, rfl⟩ := List.mem_map.mp hx
    refine Option.isSome_iff_exists.mp (List.find?_isSome.mpr ⟨e, he, ?_⟩)
    exact decide_eq_true hkey
  · rintro ⟨e, hrow⟩
    refine ⟨e.content, List.mem_map_of_mem
      (List.mem_of_find?_eq_some hrow), ?_⟩
    exact Graph.key_of_row hrow

end Keys

-- ================================================================== writes

section Refinement

variable {env : GraphEnv} {g : Graph} {k : EntityKey} {name : String}
  {attrs : Attributes} {e : KgEntity}

/-- An upsert leaves the aliases and edges of what is there. -/
theorem contents_entity_rest (h : g.Valid env) (ha : g.AliasRefs)
    (hd : g.EdgeRefs) :
    let g' := (GraphWrite.entity k name attrs).apply env g
    g'.contents.aliases = g.contents.aliases
      ∧ g'.contents.edges = g.contents.edges := by
  intro g'
  have haliases : g'.aliases = g.aliases := aliases_apply (by simp)
  have hedges : g'.edges = g.edges := edges_apply (by simp)
  constructor
  · unfold Graph.contents
    rw [haliases]
    refine List.map_congr_left fun a hmem => ?_
    rw [keyIn_apply h (ha a hmem)]
  · unfold Graph.contents
    rw [hedges]
    refine List.map_congr_left fun d hmem => ?_
    obtain ⟨hsrc, hdst⟩ := hd d hmem
    unfold edgeContent
    rw [keyIn_apply h hsrc, keyIn_apply h hdst]

/-- An upsert does to the contents what it is for. -/
theorem contents_entity (h : g.Valid env) (ha : g.AliasRefs)
    (hd : g.EdgeRefs) :
    ((GraphWrite.entity k name attrs).apply env g).contents
      = g.contents.upsert k name attrs := by
  obtain ⟨haliases, hedges⟩ := contents_entity_rest (k := k) h ha hd
  have hentities : ((GraphWrite.entity k name attrs).apply env
      g).contents.entities = (g.contents.upsert k name attrs).entities := by
    unfold Contents.upsert
    cases hrow : g.row k with
    | some e =>
        rw [if_pos (has_contents.mpr ⟨e, hrow⟩), apply_entity_some hrow]
        unfold Graph.contents
        dsimp only
        rw [List.map_map, List.map_map]
        refine List.map_congr_left fun x _ => ?_
        unfold renamed KgEntity.content
        dsimp only [Function.comp]
        split
        · rename_i hkey
          rw [← hkey]
          rfl
        · rfl
    | none =>
        have hnot : ¬ g.contents.Has k := by
          rw [has_contents, hrow]
          rintro ⟨e, ⟨⟩⟩
        rw [if_neg hnot, apply_entity_none hrow]
        unfold Graph.contents
        dsimp only
        rw [List.map_append]
        rfl
  have hrest : (g.contents.upsert k name attrs).aliases
        = g.contents.aliases
      ∧ (g.contents.upsert k name attrs).edges = g.contents.edges := by
    unfold Contents.upsert
    split <;> exact ⟨rfl, rfl⟩
  calc ((GraphWrite.entity k name attrs).apply env g).contents
      = ⟨(g.contents.upsert k name attrs).entities, g.contents.aliases,
          g.contents.edges⟩ := by rw [← hentities, ← haliases, ← hedges]
    _ = g.contents.upsert k name attrs := by rw [← hrest.1, ← hrest.2]

/-- So does an alias of the row of a key. -/
theorem contents_alias (h : g.Valid env) (hrow : g.row k = some e) :
    ((GraphWrite.aliasRow ⟨e.id, name⟩).apply env g).contents
      = g.contents.addAlias k name := by
  have hthere : ⟨e.id, name⟩ ∈ g.aliases
      ↔ (some k, name) ∈ g.contents.aliases := by
    constructor
    · intro hmem
      exact List.mem_map.mpr ⟨_, hmem, by rw [keyIn_row h hrow]⟩
    · intro hmem
      obtain ⟨a, ha, hpair⟩ := List.mem_map.mp hmem
      obtain ⟨hid, rfl⟩ := Prod.mk.inj hpair
      rw [← id_of_keyIn h hrow hid]
      exact ha
  unfold GraphWrite.apply Contents.addAlias
  dsimp only
  by_cases hmem : ⟨e.id, name⟩ ∈ g.aliases
  · rw [if_pos hmem, if_pos (hthere.mp hmem)]
  · rw [if_neg hmem, if_neg (mt hthere.mpr hmem)]
    unfold Graph.contents
    dsimp only
    rw [List.map_append, List.map_singleton]
    dsimp only
    rw [keyIn_row h hrow]

/-- Two edges have one key when they have one between keys. -/
theorem edgeContent_key (h : g.Valid env) {src dst : EntityKey}
    {s d : KgEntity} {x y : KgEdge} (hsrc : g.row src = some s)
    (hdst : g.row dst = some d) (hs : y.srcId = s.id) (hd : y.dstId = d.id) :
    (edgeContent g.entities x).key = (edgeContent g.entities y).key
      ↔ x.key = y.key := by
  simp only [EdgeContent.key, edgeContent, KgEdge.args, KgEdge.key,
    EdgeContentKey.mk.injEq, EdgeKey.mk.injEq, hs, hd, keyIn_row h hsrc,
    keyIn_row h hdst]
  refine and_congr_right fun _ => and_congr ?_ (and_congr_left fun _ => ?_)
  · exact ⟨id_of_keyIn h hsrc, fun hid => hid ▸ keyIn_row h hsrc⟩
  · exact ⟨id_of_keyIn h hdst, fun hid => hid ▸ keyIn_row h hdst⟩

/-- And an edge between the rows of two keys. -/
theorem contents_edge (h : g.Valid env) {src dst : EntityKey}
    {s d : KgEntity} (args : EdgeArgs) (hsrc : g.row src = some s)
    (hdst : g.row dst = some d) :
    ((GraphWrite.edge (args.edge s.id d.id)).apply env g).contents
      = g.contents.addEdge ⟨some src, some dst, args⟩ := by
  have hnew : edgeContent g.entities (args.edge s.id d.id)
      = ⟨some src, some dst, args⟩ := by
    unfold edgeContent
    dsimp only [EdgeArgs.edge]
    rw [keyIn_row h hsrc, keyIn_row h hdst]
    rfl
  have hthere : (∃ x ∈ g.edges, x.key = (args.edge s.id d.id).key)
      ↔ ∃ x ∈ g.contents.edges,
        x.key = (⟨some src, some dst, args⟩ : EdgeContent).key := by
    rw [← hnew]
    constructor
    · rintro ⟨x, hx, hkey⟩
      exact ⟨_, List.mem_map_of_mem hx,
        (edgeContent_key h hsrc hdst rfl rfl).mpr hkey⟩
    · rintro ⟨y, hy, hkey⟩
      obtain ⟨x, hx, rfl⟩ := List.mem_map.mp hy
      exact ⟨x, hx, (edgeContent_key h hsrc hdst rfl rfl).mp hkey⟩
  unfold GraphWrite.apply Contents.addEdge
  dsimp only
  by_cases hmem : ∃ x ∈ g.edges, x.key = (args.edge s.id d.id).key
  · rw [if_pos hmem, if_pos (hthere.mp hmem)]
  · rw [if_neg hmem, if_neg (mt hthere.mpr hmem)]
    unfold Graph.contents
    dsimp only
    rw [List.map_append, List.map_singleton, hnew]

end Refinement

end LegalBot.Memory
