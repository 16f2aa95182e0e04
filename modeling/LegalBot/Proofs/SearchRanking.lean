/-
What a search of the graph says of a source.

# Rows and sources

The search joins the entities it found with their mentions and keeps, of
each source, the row that comes first; the rows have no order of their
own. So a source that several entities are mentioned in gets the score of
any of them (`resultsOf` takes the rows in a given order).

# When the order does not matter

`search_ranking_iff`: in every order the results are the `k` best
sources, each with its best score, exactly when the scores are settled: a
source that shows different scores is passed over, for `k` sources of one
score each that score no less than its best (`Ranking.Settled`).
-/
import LegalBot.Lib.Ranking
import LegalBot.Memory.Histories

namespace LegalBot.Memory

open Programs
open Ranking (IsBest Ranks Settled keepFirst topFirsts)

-- ============================================================== statements

/-- The source of a result. -/
def SearchResult.source (r : SearchResult) : SourceType × Uuid :=
  (r.sourceType, r.sourceId)

section Statements

variable (env : GraphEnv) (g : Graph) (query owner : String) (k : Nat)

/-- The entities a search finds. -/
def matched : List EntityHit :=
  if strip query = "" then []
  else searchEntities env g owner (strip query) k

/-- The mention rows of these, in the order of the table. -/
def mentionRows : List (KgMention × KgEntity) :=
  g.mentionsOf owner ((matched env g query owner k).map (·.id))

/-- One result a mention row, before sources are told apart. -/
def rowResults (rows : List (KgMention × KgEntity)) : List SearchResult :=
  rows.map (searchResult env (matched env g query owner k))

/-- All results, in the order of the table. -/
def allResults : List SearchResult :=
  rowResults env g query owner k (mentionRows env g query owner k)

/-- What `search_related` returns for the rows in this order. -/
def resultsOf (rows : List (KgMention × KgEntity)) : List SearchResult :=
  sliceTo k (byScore SearchResult.score
    ((rowResults env g query owner k rows).foldl firstOfSource []))

/-- The best score among the rows of a source. -/
def bestScore (rows : List SearchResult) (s : SourceType × Uuid) : ℚ :=
  maxScore ((rows.filter fun r => r.source = s).map (·.score))

/-- In every order of the rows the results are the `k` best sources with
their best scores, and only sources of one score change places. -/
structure SearchRanked : Prop where
  ranks : ∀ rows, rows.Perm (mentionRows env g query owner k) →
    Ranks SearchResult.source SearchResult.score
      (bestScore (allResults env g query owner k))
      (allResults env g query owner k) k
      (resultsOf env g query owner k rows)
  scores : ∀ rows rows', rows.Perm (mentionRows env g query owner k) →
    rows'.Perm (mentionRows env g query owner k) →
    (resultsOf env g query owner k rows).map (·.score)
      = (resultsOf env g query owner k rows').map (·.score)
  sources : ∀ rows rows', rows.Perm (mentionRows env g query owner k) →
    rows'.Perm (mentionRows env g query owner k) →
    ∀ r ∈ resultsOf env g query owner k rows,
      r.source ∈ (resultsOf env g query owner k rows').map (·.source)
        ∨ ∃ r' ∈ resultsOf env g query owner k rows',
          r'.source ∉ (resultsOf env g query owner k rows).map (·.source)
            ∧ r'.score = r.score

/-- A source that shows different scores is passed over. -/
def ScoresSettled : Prop :=
  Settled SearchResult.source SearchResult.score
    (bestScore (allResults env g query owner k))
    (allResults env g query owner k) k

instance : Decidable (ScoresSettled env g query owner k) :=
  inferInstanceAs (Decidable (Settled _ _ _ _ _))

end Statements

-- ============================================================ best scores

section BestScores

variable {xs : List ℚ} {x : ℚ} {rows : List SearchResult}

theorem le_foldl_max : ∀ {x : ℚ}, x ≤ xs.foldl max x := by
  induction xs with
  | nil => exact fun {_} => le_refl _
  | cons y xs ih => exact fun {_} => (le_max_left _ y).trans ih

theorem mem_foldl_max (xs : List ℚ) (x : ℚ) :
    xs.foldl max x = x ∨ xs.foldl max x ∈ xs := by
  induction xs generalizing x with
  | nil => exact Or.inl rfl
  | cons y xs ih =>
      rw [List.foldl_cons]
      rcases ih (max x y) with h | h
      · rw [h]
        refine (max_choice x y).imp_right fun hy => ?_
        rw [hy]
        exact List.mem_cons_self
      · exact Or.inr (List.mem_cons_of_mem y h)

theorem foldl_max_bound {y : ℚ} (h : y ∈ xs) : y ≤ xs.foldl max x := by
  induction xs generalizing x with
  | nil => cases h
  | cons z xs ih =>
      rw [List.foldl_cons]
      rcases List.mem_cons.mp h with rfl | h
      · exact (le_max_right x y).trans le_foldl_max
      · exact ih h

theorem le_maxScore (h : x ∈ xs) : x ≤ maxScore xs := by
  cases xs with
  | nil => cases h
  | cons y xs =>
      rcases List.mem_cons.mp h with rfl | h
      · exact le_foldl_max
      · exact foldl_max_bound h

theorem maxScore_mem (h : xs ≠ []) : maxScore xs ∈ xs := by
  cases xs with
  | nil => exact absurd rfl h
  | cons y xs =>
      rcases mem_foldl_max xs y with hmax | hmax
      · exact List.mem_cons.mpr (Or.inl hmax)
      · exact List.mem_cons_of_mem y hmax

theorem isBest_bestScore :
    IsBest SearchResult.source SearchResult.score (bestScore rows) rows
    where
  reached := by
    intro r hr
    have hscore : r.score ∈ (rows.filter fun b =>
        b.source = r.source).map (·.score) :=
      List.mem_map_of_mem (List.mem_filter.mpr ⟨hr, decide_eq_true rfl⟩)
    obtain ⟨b, hb, hbest⟩ :=
      List.mem_map.mp (maxScore_mem (List.ne_nil_of_mem hscore))
    obtain ⟨hb, hsource⟩ := List.mem_filter.mp hb
    exact ⟨b, hb, of_decide_eq_true hsource, hbest⟩
  bound := fun r hr => le_maxScore
    (List.mem_map_of_mem (List.mem_filter.mpr ⟨hr, decide_eq_true rfl⟩))

end BestScores

-- ================================================================= results

section Results

variable {env : GraphEnv} {g : Graph} {query owner : String} {k : Nat}
  {rows : List (KgMention × KgEntity)}

theorem firstOfSource_eq :
    firstOfSource = keepFirst SearchResult.source := by
  funext results r
  simp only [firstOfSource, keepFirst, SearchResult.source,
    Prod.mk.injEq]

/-- The results are the best of the first rows. -/
theorem resultsOf_eq : resultsOf env g query owner k rows
    = topFirsts SearchResult.source SearchResult.score k
      (rowResults env g query owner k rows) := by
  have hnat : ¬ (k : Int) < 0 := Int.not_lt.mpr (Int.natCast_nonneg k)
  unfold resultsOf sliceTo
  rw [firstOfSource_eq, if_neg hnat, Int.toNat_natCast]
  rfl

theorem mentionsOf_nil : g.mentionsOf owner [] = [] := by
  unfold Graph.mentionsOf
  simp

/-- `search_related` with a limit of at least one takes the rows in the
order of the table. -/
theorem searchRelated_eq (hk : 1 ≤ k) :
    searchRelated env g query owner (some k)
      = .ok (resultsOf env g query owner k
          (mentionRows env g query owner k)) := by
  have hlimit : searchLimit env (some (k : Int)) = k :=
    if_neg (by omega)
  have hnat : ¬ (env.postgres = true ∧ (k : Int) < 0) := fun h => by
    omega
  unfold searchRelated
  simp only [hlimit]
  by_cases hquery : strip query = ""
  · have hfound : matched env g query owner k = [] := if_pos hquery
    have hrows : mentionRows env g query owner k = [] := by
      unfold mentionRows
      rw [hfound]
      exact mentionsOf_nil
    rw [if_pos hquery, hrows, resultsOf_eq]
    exact congrArg Except.ok List.take_nil.symm
  · have hfound : matched env g query owner k
        = searchEntities env g owner (strip query) k := if_neg hquery
    rw [if_neg hquery, if_neg hnat]
    unfold resultsOf mentionRows rowResults
    rw [hfound]

/-- The rows in the order in which the worst result of a source comes
first. -/
theorem ascending_rows (env : GraphEnv) (g : Graph)
    (query owner : String) (k : Nat)
    (rows : List (KgMention × KgEntity)) :
    ∃ rows', rows'.Perm rows ∧ rowResults env g query owner k rows'
      = (rowResults env g query owner k rows).insertionSort
        fun a b => a.score ≤ b.score := by
  let f := searchResult env (matched env g query owner k)
  refine ⟨rows.insertionSort fun a b => (f a).score ≤ (f b).score,
    List.perm_insertionSort _ rows, ?_⟩
  exact List.map_insertionSort _ _ f rows fun _ _ _ _ => Iff.rfl

/-- A search with a limit of at least one returns the results for the
order of the table. In every order these are the best sources with their
best scores exactly when the scores are settled. -/
theorem search_ranking_iff (hk : 1 ≤ k) :
    searchRelated env g query owner (some k)
        = .ok (resultsOf env g query owner k
            (mentionRows env g query owner k))
      ∧ (SearchRanked env g query owner k
        ↔ ScoresSettled env g query owner k) := by
  refine ⟨searchRelated_eq hk, fun h => ?_, fun h => ?_⟩
  · obtain ⟨rows, hperm, hrows⟩ := ascending_rows env g query owner k
      (mentionRows env g query owner k)
    have hranks := h.ranks rows hperm
    rw [resultsOf_eq, hrows] at hranks
    exact Ranking.settled_of_ranks isBest_bestScore hranks
  · have hranks : ∀ rows, rows.Perm (mentionRows env g query owner k) →
        Ranks SearchResult.source SearchResult.score
          (bestScore (allResults env g query owner k))
          (allResults env g query owner k) k
          (resultsOf env g query owner k rows) := by
      intro rows hperm
      rw [resultsOf_eq]
      exact Ranking.ranks_of_settled isBest_bestScore
        (hperm.map (searchResult env (matched env g query owner k))) h
    exact ⟨hranks,
      fun rows rows' hp hp' => (hranks rows hp).values_eq (hranks rows' hp'),
      fun rows rows' hp hp' r hr =>
        (hranks rows hp).exchange (hranks rows' hp') hr⟩

end Results

-- =============================================================== scenarios

section Scenarios

/-- Two organizations of an owner, both mentioned in one item, the less
similar one first. -/
def sharedSource : Graph :=
  { Graph.empty with
    entities := [⟨0, "u1", .organization, "acme ltd", "Acme Ltd", []⟩,
      ⟨1, "u1", .organization, "acme", "Acme", []⟩]
    mentions := [⟨0, "u1", .ingestionItem, 7, none, 1⟩,
      ⟨1, "u1", .ingestionItem, 7, none, 1⟩]
    drawn := 2 }

/-- The graph without the less similar one. -/
def acmeSource : Graph :=
  { sharedSource with
    entities := [⟨1, "u1", .organization, "acme", "Acme", []⟩]
    mentions := [⟨1, "u1", .ingestionItem, 7, none, 1⟩] }

/-- One organization is found with its best score. -/
theorem lone_entity_ranked :
    searchRelated .namesakes acmeSource "Acme" "u1" (some (3 : Nat))
        = .ok (resultsOf .namesakes acmeSource "Acme" "u1" 3
            (mentionRows .namesakes acmeSource "Acme" "u1" 3))
      ∧ SearchRanked .namesakes acmeSource "Acme" "u1" 3 :=
  (search_ranking_iff (by decide)).imp_right fun hiff =>
    hiff.mpr (by decide +kernel)

theorem sharedSource_valid : sharedSource.Valid .namesakes where
  ids := by decide
  keys := by decide
  drawn := by
    intro e he
    rcases List.mem_cons.mp he with rfl | he
    · exact ⟨0, by decide, rfl⟩
    · rw [List.mem_singleton.mp he]
      exact ⟨1, by decide, rfl⟩
  aliases := .nil
  edges := .nil

/-- The item gets the score of the other one. -/
theorem lower_score_shown :
    sharedSource.Valid .namesakes
      ∧ ∃ r, searchRelated .namesakes sharedSource "Acme" "u1" (some 3)
        = .ok [r]
      ∧ ∃ hit ∈ searchEntities .namesakes sharedSource "u1" "Acme" 3,
        ∃ m ∈ sharedSource.mentions, m.ownerUserId = "u1"
          ∧ m.entityId = hit.id
          ∧ (m.sourceType, m.sourceId) = r.source ∧ r.score < hit.score := by
  refine ⟨sharedSource_valid,
    ⟨.ingestionItem, 7, none, 0, .organization, "Acme Ltd", 9 / 10⟩,
    by decide +kernel, ⟨1, .organization, "Acme", 1⟩, by decide +kernel,
    ⟨1, "u1", .ingestionItem, 7, none, 1⟩, by decide +kernel, rfl, rfl,
    rfl, by decide +kernel⟩

end Scenarios

end LegalBot.Memory
