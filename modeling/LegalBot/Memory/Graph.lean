/-
The tables of the knowledge graph and the statements that
`KnowledgeGraphService` runs on them: upserts, edges, mentions and the
two entity searches (`memory/service.py`).

# The two databases

Every writer has a branch for Postgres, an `INSERT … ON CONFLICT`, and a
portable one, which looks first and then adds; rows it has added are
visible to later queries of its session. `GraphEnv.postgres` chooses.

# Rows

A row has the columns something here reads or a claim of the service
names. Aliases, edges and mentions have ids that nothing reads. The
`k`-th uuid4 that is stored is `uuid4 k`; no two are equal.

# Searching

`similarity`, `%` and `ILIKE` are the database's. A query without `ORDER
BY`, and rows of one score, come in the order of the table.
-/
import LegalBot.Memory.Extraction
import Mathlib.Data.Rat.Init
import Mathlib.Algebra.Order.Ring.Unbundled.Rat

namespace LegalBot.Memory

-- ==================================================================== rows

/-- The values of `source_type`. -/
inductive SourceType where
  | ingestionItem | ingestionAttachment | run
  deriving DecidableEq, Repr

/-- `kg_entity`. -/
structure KgEntity where
  id : Uuid
  ownerUserId : String
  type : EntityType
  canonicalKey : String
  canonicalName : String
  attributes : Attributes
  deriving DecidableEq

/-- `kg_alias`. -/
structure KgAlias where
  entityId : Uuid
  aliasName : String
  deriving DecidableEq

/-- `kg_edge`. -/
structure KgEdge where
  ownerUserId : String
  srcId : Uuid
  dstId : Uuid
  relation : Relation
  attributes : Attributes
  confidence : ℚ
  origin : String
  sourceType : SourceType
  sourceId : Uuid
  deriving DecidableEq

/-- `kg_mention`. -/
structure KgMention where
  entityId : Uuid
  ownerUserId : String
  sourceType : SourceType
  sourceId : Uuid
  snippet : Option String
  confidence : ℚ
  deriving DecidableEq

/-- The four tables, and how many uuid4s entities have drawn. -/
structure Graph where
  entities : List KgEntity
  aliases : List KgAlias
  edges : List KgEdge
  mentions : List KgMention
  drawn : Nat
  deriving DecidableEq

/-- An empty graph. -/
def Graph.empty : Graph := ⟨[], [], [], [], 0⟩

/-- What the service runs on. -/
structure GraphEnv where
  rt : Runtime
  texts : Texts
  postgres : Bool
  uuid4 : Nat → Uuid
  uuid4_injective : Function.Injective uuid4
  similarity : String → String → ℚ
  similar : String → String → Bool
  ilike : String → String → Bool
  round4 : ℚ → ℚ
  mergeTrgmThreshold : ℚ
  searchTopK : Int
  llmExtractionEnabled : Bool

/-- A part of a transaction on the graph. -/
abbrev GraphM := StateT Graph (Except GraphError)

/-- `scalar_one_or_none()`. -/
def scalarOneOrNone {α : Type} :
    List α → Except GraphError (Option α)
  | [] => .ok none
  | [a] => .ok (some a)
  | _ => .error .multipleResultsFound

/-- `scalar_one()`. -/
def scalarOne {α : Type} : List α → Except GraphError α
  | [a] => .ok a
  | [] => .error .noResultFound
  | _ => .error .multipleResultsFound

-- ================================================================ entities

/-- The columns of `uq_kg_entity_owner_type_key`. -/
structure EntityKey where
  ownerUserId : String
  type : EntityType
  canonicalKey : String
  deriving DecidableEq

/-- The key of a row. -/
def KgEntity.key (e : KgEntity) : EntityKey :=
  ⟨e.ownerUserId, e.type, e.canonicalKey⟩

/-- The `SELECT` by the three key columns. -/
def Graph.withKey (g : Graph) (k : EntityKey) : List KgEntity :=
  g.entities.filter fun e => e.key = k

/-- The `SELECT`s by owner and key only. -/
def Graph.withOwnerKey (g : Graph) (owner key : String) : List KgEntity :=
  g.entities.filter fun e => e.ownerUserId = owner ∧ e.canonicalKey = key

/-- Insert an entity under a new id. -/
def insertEntity (env : GraphEnv) (k : EntityKey) (name : String)
    (attrs : Attributes) : GraphM KgEntity := fun g =>
  if ∃ e ∈ g.entities, e.key = k then .error .integrityError
  else
    let row : KgEntity :=
      { id := env.uuid4 g.drawn, ownerUserId := k.ownerUserId
        type := k.type, canonicalKey := k.canonicalKey
        canonicalName := name, attributes := attrs }
    .ok (row,
      { g with entities := g.entities ++ [row], drawn := g.drawn + 1 })

/-- Replace the name and the attributes of a row. -/
def updateEntity (row : KgEntity) (name : String) (attrs : Attributes) :
    GraphM KgEntity := fun g =>
  let row' := { row with canonicalName := name, attributes := attrs }
  .ok (row', { g with
    entities := g.entities.map fun e => if e.id = row.id then row' else e })

/-- `INSERT … ON CONFLICT DO UPDATE … RETURNING`. -/
def pgUpsertEntity (env : GraphEnv) (k : EntityKey) (name : String)
    (attrs : Attributes) : GraphM KgEntity := do
  match (← get).entities.find? fun e => e.key = k with
  | none => insertEntity env k name attrs
  | some row => updateEntity row name attrs

/-- The portable upsert. -/
def ormUpsertEntity (env : GraphEnv) (k : EntityKey) (name : String)
    (attrs : Attributes) : GraphM KgEntity := do
  match ← scalarOneOrNone ((← get).withKey k) with
  | none => insertEntity env k name attrs
  | some row => updateEntity row name attrs

/-- `_upsert_alias`. -/
def upsertAlias (env : GraphEnv) (entityId : Uuid) (name : String) :
    GraphM Unit := do
  let row : KgAlias := ⟨entityId, name⟩
  if env.postgres then
    -- `ON CONFLICT DO NOTHING`
    modify fun g => if row ∈ g.aliases then g
      else { g with aliases := g.aliases ++ [row] }
  else
    match ← scalarOneOrNone ((← get).aliases.filter fun a => a = row) with
    | none => modify fun g => { g with aliases := g.aliases ++ [row] }
    | some _ => pure ()

/-- `if alias and alias.strip()`. -/
def upsertAliasIf (env : GraphEnv) (entityId : Uuid) (name : String) :
    GraphM Unit :=
  if strip name = "" then pure ()
  else upsertAlias env entityId (strip name)

/-- The upsert of the database. -/
def upsertRow (env : GraphEnv) (k : EntityKey) (name : String)
    (attrs : Attributes) : GraphM KgEntity :=
  if env.postgres then pgUpsertEntity env k name attrs
  else ormUpsertEntity env k name attrs

/-- `upsert_entity`. -/
def upsertEntity (env : GraphEnv) (k : EntityKey) (name : String)
    (attrs : Attributes) (aliasName : Option String) : GraphM KgEntity := do
  let row ← upsertRow env k name attrs
  aliasName.toList.forM (upsertAliasIf env row.id)
  return row

-- ====================================================== edges and mentions

/-- The columns of `uq_kg_edge_dedup`. -/
structure EdgeKey where
  ownerUserId : String
  srcId : Uuid
  dstId : Uuid
  relation : Relation
  sourceType : SourceType
  sourceId : Uuid
  deriving DecidableEq

/-- The key of an edge. -/
def KgEdge.key (e : KgEdge) : EdgeKey :=
  ⟨e.ownerUserId, e.srcId, e.dstId, e.relation, e.sourceType, e.sourceId⟩

/-- `add_edge`. -/
def addEdge (env : GraphEnv) (edge : KgEdge) : GraphM Unit := do
  if env.postgres then
    modify fun g => if ∃ e ∈ g.edges, e.key = edge.key then g
      else { g with edges := g.edges ++ [edge] }
  else
    match ← scalarOneOrNone ((← get).edges.filter fun e =>
        e.key = edge.key) with
    | none => modify fun g => { g with edges := g.edges ++ [edge] }
    | some _ => pure ()

/-- `add_mention`. -/
def addMention (mention : KgMention) : GraphM Unit :=
  modify fun g => { g with mentions := g.mentions ++ [mention] }

-- =============================================================== searching

/-- An entity found, with its score. -/
structure EntityHit where
  id : Uuid
  type : EntityType
  canonicalName : String
  score : ℚ
  deriving DecidableEq

/-- The aliases of an entity. -/
def Graph.aliasesOf (g : Graph) (id : Uuid) : List String :=
  (g.aliases.filter fun a => a.entityId = id).map (·.aliasName)

/-- `COALESCE(MAX(…), 0)`. -/
def maxScore : List ℚ → ℚ
  | [] => 0
  | x :: xs => xs.foldl max x

/-- A text meets one of the two conditions of the search. -/
def textHit (env : GraphEnv) (q text : String) : Bool :=
  env.similar text q || env.ilike text q

/-- The aliases that stand in the joined rows the `WHERE` keeps: all of
them when the name meets it. -/
def joinedAliases (env : GraphEnv) (g : Graph) (q : String)
    (e : KgEntity) : List String :=
  if textHit env q e.canonicalName then g.aliasesOf e.id
  else (g.aliasesOf e.id).filter (textHit env q)

/-- The score of an entity. -/
def entityScore (env : GraphEnv) (g : Graph) (q : String) (e : KgEntity) :
    ℚ :=
  max (env.similarity e.canonicalName q)
    (maxScore ((joinedAliases env g q e).map fun a => env.similarity a q))

/-- Some joined row of the entity is kept. -/
def entityHit (env : GraphEnv) (g : Graph) (q : String) (e : KgEntity) :
    Bool :=
  textHit env q e.canonicalName || (g.aliasesOf e.id).any (textHit env q)

/-- `ORDER BY score DESC`. -/
def byScore {α : Type} (score : α → ℚ) (hits : List α) : List α :=
  hits.insertionSort fun a b => score b ≤ score a

/-- `LIMIT`; a negative one is none, where it is no error. -/
def limitRows {α : Type} (limit : Int) (rows : List α) : List α :=
  if limit < 0 then rows else rows.take limit.toNat

/-- The Postgres search. -/
def pgSearchEntities (env : GraphEnv) (g : Graph) (owner query : String)
    (limit : Int) : List EntityHit :=
  let hits := (g.entities.filter fun e => e.ownerUserId = owner
    ∧ entityHit env g query e).map fun e =>
      { id := e.id, type := e.type, canonicalName := e.canonicalName
        score := entityScore env g query e }
  limitRows limit (byScore EntityHit.score hits)

/-- The portable search. -/
def likeSearchEntities (env : GraphEnv) (g : Graph)
    (owner query : String) (limit : Int) : List EntityHit :=
  (limitRows limit (g.entities.filter fun e => e.ownerUserId = owner
    ∧ (env.ilike e.canonicalName query
      ∨ (g.aliasesOf e.id).any (env.ilike · query)))).map fun e =>
    { id := e.id, type := e.type, canonicalName := e.canonicalName
      score := 1 }

/-- `_search_entities`. -/
def searchEntities (env : GraphEnv) (g : Graph) (owner query : String)
    (limit : Int) : List EntityHit :=
  if env.postgres then pgSearchEntities env g owner query limit
  else likeSearchEntities env g owner query limit

/-- One result of `search_related`. -/
structure SearchResult where
  sourceType : SourceType
  sourceId : Uuid
  snippet : Option String
  entityId : Uuid
  entityType : EntityType
  entityName : String
  score : ℚ
  deriving DecidableEq

/-- The mentions of the entities found, joined with their entities. -/
def Graph.mentionsOf (g : Graph) (owner : String) (ids : List Uuid) :
    List (KgMention × KgEntity) :=
  (g.mentions.filter fun m => m.ownerUserId = owner
    ∧ m.entityId ∈ ids).flatMap fun m =>
      (g.entities.filter fun e => e.id = m.entityId).map fun e => (m, e)

/-- The loop of `search_related`: the first result of each source. -/
def firstOfSource (results : List SearchResult) (r : SearchResult) :
    List SearchResult :=
  if ∃ s ∈ results, s.sourceType = r.sourceType
      ∧ s.sourceId = r.sourceId then results
  else results ++ [r]

/-- The result of a mention. -/
def searchResult (env : GraphEnv) (hits : List EntityHit)
    (row : KgMention × KgEntity) : SearchResult :=
  { sourceType := row.1.sourceType, sourceId := row.1.sourceId
    snippet := row.1.snippet, entityId := row.2.id
    entityType := row.2.type, entityName := row.2.canonicalName
    score := env.round4
      (((hits.find? fun h => h.id = row.2.id).map (·.score)).getD 0) }

/-- `k or KG_SEARCH_TOP_K`. -/
def searchLimit (env : GraphEnv) (k : Option Int) : Int :=
  match k with
  | some k => if k = 0 then env.searchTopK else k
  | none => env.searchTopK

/-- `xs[:n]`. -/
def sliceTo {α : Type} (n : Int) (xs : List α) : List α :=
  xs.take (if n < 0 then n + xs.length else n).toNat

/-- `search_related`. -/
def searchRelated (env : GraphEnv) (g : Graph) (query owner : String)
    (k : Option Int) : Except GraphError (List SearchResult) :=
  let q := strip query
  let limit := searchLimit env k
  if q = "" then .ok []
  else if env.postgres ∧ limit < 0 then .error .invalidRowCount
  else
    let hits := searchEntities env g owner q limit
    let rows := g.mentionsOf owner (hits.map (·.id))
    let results := (rows.map (searchResult env hits)).foldl firstOfSource []
    .ok (sliceTo limit (byScore SearchResult.score results))

end LegalBot.Memory
