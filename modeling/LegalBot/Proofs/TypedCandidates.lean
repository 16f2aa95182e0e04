/-
Which rows a call of `resolve_entity` may merge into.

# The cut

The search ranks the hits of the owner of all types and keeps five; the
type and the threshold are asked of these five. So the rows of the type
that reach the threshold (`qualified`) are not all candidates: hits of
other types may take their places.

# When the type alone decides

`typed_candidates_iff`: a call merges as its type alone says, and as it
would without the rows of other types, exactly when the cut leaves one
candidate if there is one row that qualifies, and not one if there are
more (`Uncut`).
-/
import LegalBot.Lib.Selection
import LegalBot.Memory.Histories

namespace LegalBot.Memory

open Programs
open Selection (Uncut)

-- ============================================================== statements

/-- A row as the search reports it. -/
def hitOf (env : GraphEnv) (g : Graph) (q : String) (e : KgEntity) :
    EntityHit :=
  { id := e.id, type := e.type, canonicalName := e.canonicalName
    score := entityScore env g q e }

/-- The hits of an owner, in the order of the search. -/
def ranking (env : GraphEnv) (g : Graph) (owner q : String) :
    List EntityHit :=
  byScore EntityHit.score ((g.entities.filter fun e =>
    e.ownerUserId = owner ∧ entityHit env g q e).map (hitOf env g q))

/-- A hit is of the type and reaches the threshold. -/
def candidate (env : GraphEnv) (k : EntityKey) (m : EntityHit) : Bool :=
  m.type = k.type ∧ env.mergeTrgmThreshold ≤ m.score

/-- The rows of the owner and the type that the search admits and that
reach the threshold. -/
def qualified (env : GraphEnv) (g : Graph) (k : EntityKey)
    (name : String) : List KgEntity :=
  g.entities.filter fun e => e.ownerUserId = k.ownerUserId
    ∧ entityHit env g name e ∧ candidate env k (hitOf env g name e)

/-- The places of these among the hits of all types: one that counts is
not cut off, and of several not all but one are. -/
def CutHarmless (env : GraphEnv) (g : Graph) (k : EntityKey)
    (name : String) : Prop :=
  Uncut 5 ((ranking env g k.ownerUserId name).findIdxs (candidate env k))

instance (env : GraphEnv) (g : Graph) (k : EntityKey) (name : String) :
    Decidable (CutHarmless env g k name) :=
  inferInstanceAs (Decidable (Uncut 5 _))

/-- The graph without the entities of other types. -/
def Graph.ofType (t : EntityType) (g : Graph) : Graph where
  entities := g.entities.filter fun e => e.type = t
  aliases := g.aliases.filter fun a =>
    ∃ e ∈ g.entities, e.type = t ∧ e.id = a.entityId
  edges := g.edges.filter fun d =>
    (∃ e ∈ g.entities, e.type = t ∧ e.id = d.srcId)
      ∧ ∃ e ∈ g.entities, e.type = t ∧ e.id = d.dstId
  mentions := g.mentions.filter fun m =>
    ∃ e ∈ g.entities, e.type = t ∧ e.id = m.entityId
  drawn := g.drawn

/-- A call that returned `row` has merged into the only row of its type
that qualifies, if there is exactly one, and has done what it does
without the rows of other types. -/
structure JudgedWithinType (env : GraphEnv) (g : Graph) (k : EntityKey)
    (name : String) (aliases : List String) (attrs : Attributes)
    (row : KgEntity) : Prop where
  merges : ∀ e ∈ g.entities, row.id = e.id ↔ qualified env g k name = [e]
  alone : Wp (resolveEntity env k name aliases attrs)
    (fun row' _ => row'.id = row.id) (g.ofType k.type)

-- ================================================================= ranking

section Ranking

variable {env : GraphEnv} {g : Graph} {k : EntityKey} {name q : String}
  {owner : String} {e : KgEntity} {m : EntityHit}

theorem ranking_sorted : (ranking env g owner q).Pairwise
    fun a b => b.score ≤ a.score := by
  have : Std.Total fun a b : EntityHit => b.score ≤ a.score :=
    ⟨fun a b => le_total b.score a.score⟩
  have : IsTrans EntityHit fun a b => b.score ≤ a.score :=
    ⟨fun _ _ _ hab hbc => hbc.trans hab⟩
  exact List.pairwise_insertionSort _ _

/-- A hit is a row. -/
theorem mem_ranking (h : m ∈ ranking env g owner q) :
    ∃ e ∈ g.entities, hitOf env g q e = m := by
  obtain ⟨e, he, hhit⟩ := List.mem_map.mp (mem_byScore.mp h)
  exact ⟨e, (List.mem_filter.mp he).1, hhit⟩

/-- On Postgres the candidates are those among the five best. -/
theorem typedMatches_ranking (hpg : env.postgres = true) :
    typedMatches env g k name
      = ((ranking env g k.ownerUserId name).take 5).filter
          (candidate env k) := by
  unfold typedMatches searchEntities
  rw [if_pos hpg]
  rfl

/-- Without the cut the candidates are the rows that qualify. -/
theorem candidates_perm (env : GraphEnv) (g : Graph) (k : EntityKey)
    (name : String) :
    ((ranking env g k.ownerUserId name).filter (candidate env k)).Perm
      ((qualified env g k name).map (hitOf env g name)) := by
  refine ((List.perm_insertionSort _ _).filter _).trans ?_
  rw [List.filter_map, List.filter_filter]
  refine List.Perm.of_eq (congrArg _ (List.filter_congr fun e _ => ?_))
  simp only [Function.comp, Bool.decide_and, Bool.decide_eq_true]
  rw [Bool.and_comm, Bool.and_assoc]

/-- A row is known by its hit. -/
theorem hitOf_injective (h : g.Valid env) {e' : KgEntity}
    (he : e ∈ g.entities) (he' : e' ∈ g.entities)
    (hhit : hitOf env g q e = hitOf env g q e') : e = e' :=
  h.eq_of_id he he' (congrArg EntityHit.id hhit)

/-- One row qualifies when one hit is a candidate. -/
theorem qualified_iff (h : g.Valid env) (he : e ∈ g.entities) :
    qualified env g k name = [e]
      ↔ (ranking env g k.ownerUserId name).filter (candidate env k)
          = [hitOf env g name e] := by
  constructor
  · intro hone
    have hperm := candidates_perm env g k name
    rw [hone, List.map_singleton] at hperm
    exact List.perm_singleton.mp hperm
  · intro hone
    have hperm := candidates_perm env g k name
    rw [hone] at hperm
    obtain ⟨e', hone', hhit⟩ :=
      List.map_eq_singleton_iff.mp (List.singleton_perm.mp hperm).symm
    have he' : e' ∈ qualified env g k name := by
      rw [hone']
      exact List.mem_singleton_self _
    rw [hone', hitOf_injective h (List.mem_filter.mp he').1 he hhit]

end Ranking

-- ================================================================ decisions

section Decisions

variable {env : GraphEnv} {g g' : Graph} {k : EntityKey} {name : String}
  {aliases : List String} {attrs : Attributes} {row e : KgEntity}

/-- The candidates come from all rows that qualify. -/
theorem typedMatches_subset (hpg : env.postgres = true) {m : EntityHit}
    (h : m ∈ typedMatches env g k name) :
    m ∈ (ranking env g k.ownerUserId name).filter (candidate env k) := by
  rw [typedMatches_ranking hpg, List.mem_filter] at h
  exact List.mem_filter.mpr ⟨List.mem_of_mem_take h.1, h.2⟩

/-- A match is the only candidate. -/
theorem fuzzyMatch_iff (hpg : env.postgres = true)
    (hname : strip name ≠ "") {m : EntityHit} :
    fuzzyMatch env g k name = some m ↔ typedMatches env g k name = [m] := by
  unfold fuzzyMatch
  rw [if_pos ⟨hpg, hname⟩]
  constructor
  · intro h
    split at h
    · rename_i m' hone
      rw [hone, Option.some.inj h]
    · cases h
  · intro h
    rw [h]

/-- The row a call returns is the one candidate, or a new row. -/
theorem Resolved.merged_iff (h : g.Valid env) (hpg : env.postgres = true)
    (hname : strip name ≠ "") (hrow : g.row k = none)
    (hres : Resolved env g k name aliases attrs row g')
    (he : e ∈ g.entities) :
    row.id = e.id ↔ typedMatches env g k name = [hitOf env g name e] := by
  cases hres with
  | found hfound => cases hfound.symm.trans hrow
  | merged hnone hmatch hmem hid howner htype =>
      rename_i m
      have hone := (fuzzyMatch_iff hpg hname).mp hmatch
      have hthere : m ∈ typedMatches env g k name := by
        rw [hone]
        exact List.mem_singleton_self m
      obtain ⟨e', he', rfl⟩ := mem_ranking
        (List.mem_filter.mp (typedMatches_subset hpg hthere)).1
      rw [hone, hid]
      constructor
      · intro hsame
        rw [h.eq_of_id he' he hsame]
      · intro hsame
        exact congrArg EntityHit.id (List.singleton_injective hsame)
  | created _ hmatch =>
      refine iff_of_false (h.fresh he).symm fun hone => ?_
      cases hmatch.symm.trans ((fuzzyMatch_iff hpg hname).mpr hone)

/-- The call merges as the rows that qualify say exactly when the cut does
not change whether there is one. -/
theorem merges_iff (h : g.Valid env) (hpg : env.postgres = true)
    (hname : strip name ≠ "") (hrow : g.row k = none)
    (hres : Resolved env g k name aliases attrs row g') :
    (∀ e ∈ g.entities, row.id = e.id ↔ qualified env g k name = [e])
      ↔ ((typedMatches env g k name).length = 1
        ↔ ((ranking env g k.ownerUserId name).filter
            (candidate env k)).length = 1) := by
  have hrows : ∀ e ∈ g.entities,
      (row.id = e.id ↔ qualified env g k name = [e])
        ↔ (typedMatches env g k name = [hitOf env g name e]
          ↔ (ranking env g k.ownerUserId name).filter (candidate env k)
              = [hitOf env g name e]) := by
    intro e he
    rw [hres.merged_iff h hpg hname hrow he, qualified_iff h he]
  rw [forall₂_congr hrows]
  -- a hit that is alone in one of the lists is a row
  have hhit : ∀ m ∈ (ranking env g k.ownerUserId name).filter
      (candidate env k), ∃ e ∈ g.entities, hitOf env g name e = m :=
    fun m hm => mem_ranking (List.mem_filter.mp hm).1
  constructor
  · intro hall
    constructor
    · intro hlen
      obtain ⟨m, hone⟩ := List.length_eq_one_iff.mp hlen
      have hm : m ∈ typedMatches env g k name := by
        rw [hone]
        exact List.mem_singleton_self m
      obtain ⟨e, he, rfl⟩ := hhit m (typedMatches_subset hpg hm)
      rw [(hall e he).mp hone]
      rfl
    · intro hlen
      obtain ⟨m, hone⟩ := List.length_eq_one_iff.mp hlen
      obtain ⟨e, he, rfl⟩ := hhit m (by
        rw [hone]
        exact List.mem_singleton_self m)
      rw [(hall e he).mpr hone]
      rfl
  · intro hlen e he
    have hsub : ∀ m, typedMatches env g k name = [m] →
        m ∈ (ranking env g k.ownerUserId name).filter (candidate env k) := by
      intro m hone
      refine typedMatches_subset hpg ?_
      rw [hone]
      exact List.mem_singleton_self m
    constructor
    · intro hone
      obtain ⟨m, hall⟩ := List.length_eq_one_iff.mp
        (hlen.mp (by rw [hone]; rfl))
      have hm := hsub _ hone
      rw [hall, List.mem_singleton] at hm
      rw [hall, hm]
    · intro hall
      obtain ⟨m, hone⟩ := List.length_eq_one_iff.mp
        (hlen.mpr (by rw [hall]; rfl))
      have hm := hsub _ hone
      rw [hall, List.mem_singleton] at hm
      rw [hone, hm]

/-- The cut keeps those whose places are in it. -/
theorem cut_iff (hpg : env.postgres = true) :
    ((typedMatches env g k name).length = 1
      ↔ ((ranking env g k.ownerUserId name).filter
          (candidate env k)).length = 1) ↔ CutHarmless env g k name := by
  rw [typedMatches_ranking hpg, ← List.countP_eq_length_filter,
    ← List.countP_eq_length_filter, Selection.countP_take,
    ← List.length_findIdxs (s := 0)]
  exact Selection.one_left_iff List.pairwise_findIdxs

end Decisions

-- ================================================================== alone

section Alone

variable {env : GraphEnv} {g g' : Graph} {k : EntityKey} {name : String}
  {aliases : List String} {attrs : Attributes} {row e : KgEntity}
  {t : EntityType}

theorem ofType_valid (h : g.Valid env) : (g.ofType t).Valid env where
  ids := h.ids.sublist (List.filter_sublist.map _)
  keys := h.keys.sublist (List.filter_sublist.map _)
  drawn := fun e he => h.drawn e (List.mem_filter.mp he).1
  aliases := h.aliases.filter _
  edges := h.edges.sublist (List.filter_sublist.map _)

theorem ofType_row (hrow : g.row k = none) : (g.ofType t).row k = none :=
  Graph.row_none.mpr fun e he =>
    Graph.row_none.mp hrow e (List.mem_filter.mp he).1

theorem aliasesOf_ofType (he : e ∈ g.entities) (ht : e.type = t) :
    (g.ofType t).aliasesOf e.id = g.aliasesOf e.id :=
  aliasesOf_filter rfl fun _ ha => ⟨e, he, ht, ha.symm⟩

/-- The same rows qualify. -/
theorem qualified_ofType :
    qualified env (g.ofType k.type) k name = qualified env g k name := by
  unfold qualified
  change (g.entities.filter fun e => e.type = k.type).filter _ = _
  rw [List.filter_filter]
  refine List.filter_congr fun e he => ?_
  by_cases ht : e.type = k.type
  · have hsame := aliasesOf_ofType he ht
    simp only [hitOf, candidate, ht, entityHit_congr hsame,
      entityScore_congr hsame, decide_true, Bool.and_true]
  · simp only [hitOf, candidate, ht, decide_false, false_and,
      Bool.false_eq_true, and_false, Bool.and_false]

/-- Among hits of one type the candidates stand in front, so that the cut
is harmless. -/
theorem ofType_uncut (hpg : env.postgres = true) :
    (typedMatches env (g.ofType k.type) k name).length = 1
      ↔ ((ranking env (g.ofType k.type) k.ownerUserId name).filter
          (candidate env k)).length = 1 := by
  have hsorted : (ranking env (g.ofType k.type) k.ownerUserId
      name).Pairwise fun a b =>
        candidate env k b = true → candidate env k a = true := by
    refine ranking_sorted.imp_of_mem fun {a b} ha _ hab hb => ?_
    obtain ⟨e, he, rfl⟩ := mem_ranking ha
    have htype : e.type = k.type :=
      of_decide_eq_true (List.mem_filter.mp he).2
    exact decide_eq_true ⟨htype, (of_decide_eq_true hb).2.trans hab⟩
  rw [typedMatches_ranking hpg, ← List.countP_eq_length_filter,
    ← List.countP_eq_length_filter, Selection.countP_take_sorted hsorted]
  omega

/-- A row that is none of those there is the new one. -/
theorem Resolved.new_id (hres : Resolved env g k name aliases attrs row g')
    (hnew : ∀ e ∈ g.entities, row.id ≠ e.id) : row.id = env.uuid4 g.drawn
    := by
  cases hres with
  | found hrow =>
      exact absurd rfl (hnew row (List.mem_of_find?_eq_some hrow))
  | merged _ _ hmem => exact absurd rfl (hnew row hmem)
  | created => rfl

/-- On Postgres, for a key without a row and a name that is not blank, a
call merges as its type alone says exactly when the cut is harmless. -/
theorem typed_candidates_iff (h : g.Valid env) (hpg : env.postgres = true)
    (hrow : g.row k = none) (hname : strip name ≠ "") :
    Wp (resolveEntity env k name aliases attrs) (fun row _ =>
      JudgedWithinType env g k name aliases attrs row
        ↔ CutHarmless env g k name) g := by
  refine (resolveEntity_resolved h).mono fun row g' hres => ?_
  rw [← cut_iff hpg, ← merges_iff h hpg hname hrow hres]
  refine ⟨JudgedWithinType.merges, fun hmerges => ⟨hmerges, ?_⟩⟩
  have hvalid : (g.ofType k.type).Valid env := ofType_valid h
  refine (resolveEntity_resolved hvalid).mono fun row' g'' hres' => ?_
  -- without the other types the call merges as the type alone says
  have halone := (merges_iff hvalid hpg hname (ofType_row hrow) hres').mpr
    (ofType_uncut hpg)
  rw [qualified_ofType] at halone
  by_cases hone : ∃ e ∈ g.entities, qualified env g k name = [e]
  · obtain ⟨e, he, hone⟩ := hone
    have htyped : e ∈ (g.ofType k.type).entities := by
      have hmem : e ∈ qualified env g k name := by
        rw [hone]
        exact List.mem_singleton_self e
      have hcand := (of_decide_eq_true (List.mem_filter.mp hmem).2).2.2
      exact List.mem_filter.mpr
        ⟨he, decide_eq_true (of_decide_eq_true hcand).1⟩
    exact ((halone e htyped).mpr hone).trans
      ((hmerges e he).mpr hone).symm
  · have hnew : row.id = env.uuid4 g.drawn := hres.new_id fun e he hid =>
      hone ⟨e, he, (hmerges e he).mp hid⟩
    have hnew' : row'.id = env.uuid4 (g.ofType k.type).drawn :=
      hres'.new_id fun e he hid =>
        hone ⟨e, (List.mem_filter.mp he).1, (halone e he).mp hid⟩
    exact hnew'.trans hnew.symm

end Alone

-- =============================================================== scenarios

section Scenarios

/-- An organization, and its key as a run finds it. -/
def acmeGraph : Graph :=
  (GraphWrite.entity ⟨"u1", .organization, "acme corporation"⟩
    "Acme Corporation" []).apply .namesakes .empty

def acmeKey : EntityKey := ⟨"u1", .organization, "acme corp"⟩

theorem acmeGraph_valid : acmeGraph.Valid .namesakes := empty_valid.apply

/-- What is named exactly as the run has it: four contracts and a case. -/
def acmeWrites : List GraphWrite :=
  [.entity ⟨"u1", .contract, "nda:acme"⟩ "Acme Corp" [],
    .entity ⟨"u1", .contract, "lease:acme"⟩ "Acme Corp" [],
    .entity ⟨"u1", .contract, "service:acme"⟩ "Acme Corp" [],
    .entity ⟨"u1", .contract, "supply:acme"⟩ "Acme Corp" [],
    .entity ⟨"u1", .case, "case:acme"⟩ "Acme Corp" []]

def crowdedGraph : Graph :=
  acmeWrites.foldl (fun g w => w.apply .namesakes g) acmeGraph

theorem crowdedGraph_valid : crowdedGraph.Valid .namesakes := by
  unfold crowdedGraph acmeWrites
  simp only [List.foldl_cons, List.foldl_nil]
  exact acmeGraph_valid.apply.apply.apply.apply.apply

/-- An organization that is alone is merged into. -/
theorem lone_organization_merges :
    Wp (resolveEntity .namesakes acmeKey "Acme Corp" [] [])
      (fun row _ => JudgedWithinType .namesakes acmeGraph acmeKey
        "Acme Corp" [] [] row) acmeGraph :=
  (typed_candidates_iff acmeGraph_valid rfl (by decide +kernel)
    (by decide +kernel)).mono fun _ _ hiff =>
      hiff.mpr (by decide +kernel)

/-- Five better hits of other types hide it. -/
theorem organization_crowded_out :
    GraphEnv.namesakes.postgres = true
      ∧ crowdedGraph.Valid .namesakes ∧ crowdedGraph.row acmeKey = none
      ∧ strip "Acme Corp" ≠ ""
      ∧ ∃ row g', resolveEntity .namesakes acmeKey "Acme Corp" [] []
          crowdedGraph = .ok (row, g')
        ∧ ∃ e ∈ crowdedGraph.entities,
          qualified .namesakes crowdedGraph acmeKey "Acme Corp" = [e]
          ∧ row.id ≠ e.id := by
  refine ⟨rfl, crowdedGraph_valid, by decide +kernel, by decide +kernel,
    ⟨6, "u1", .organization, "acme corp", "Acme Corp", []⟩,
    { crowdedGraph with
      entities := crowdedGraph.entities
        ++ [⟨6, "u1", .organization, "acme corp", "Acme Corp", []⟩]
      aliases := [⟨6, "Acme Corp"⟩], drawn := 7 }, by decide +kernel,
    ⟨0, "u1", .organization, "acme corporation", "Acme Corporation", []⟩,
    by decide +kernel, by decide +kernel, by decide +kernel⟩

end Scenarios

end LegalBot.Memory
