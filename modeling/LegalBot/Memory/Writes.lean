/-
What the statements of the knowledge graph do, on both databases.

# Writes

`GraphWrite` is a statement's effect and `GraphWrite.apply` what it does
to the tables: an upsert changes the row of its key or adds one, an alias
or an edge is added unless its unique key is there, a mention always.
On tables that meet the unique constraints (`Graph.Valid`) neither
branch of a helper raises and both come to this write (`upsertEntity_wp`,
`upsertAlias_wp`, `addEdge_wp`).

# Runs of writes

`Writes env P g g'`: writes of the kind `P` lead from `g` to `g'`, each
about entities that are there (`GraphWrite.Placed`). What a call does is
said in this form, so an invariant is proved once for each kind of write
and `Writes.invariant` does the rest.
-/
import LegalBot.Lib.Programs
import LegalBot.Lib.Unique
import LegalBot.Memory.Service
import Mathlib.Logic.Relation

namespace LegalBot.Memory

open Programs
open Relational (filter_unique find_map find_none find_unique map_column
  nodup_concat)

-- ============================================================ constraints

/-- The primary key and the unique constraints of the tables. -/
structure Graph.Valid (env : GraphEnv) (g : Graph) : Prop where
  ids : (g.entities.map (·.id)).Nodup
  keys : (g.entities.map (·.key)).Nodup
  drawn : ∀ e ∈ g.entities, ∃ k < g.drawn, e.id = env.uuid4 k
  aliases : g.aliases.Nodup
  edges : (g.edges.map (·.key)).Nodup

/-- The row of a key. -/
def Graph.row (g : Graph) (k : EntityKey) : Option KgEntity :=
  g.entities.find? fun e => e.key = k

-- ================================================================== writes

/-- The effect of a statement. -/
inductive GraphWrite where
  | entity (k : EntityKey) (name : String) (attrs : Attributes)
  | aliasRow (row : KgAlias)
  | edge (row : KgEdge)
  | mention (row : KgMention)

/-- Give a row of the key the name and the attributes. -/
def renamed (k : EntityKey) (name : String) (attrs : Attributes)
    (e : KgEntity) : KgEntity :=
  if e.key = k then { e with canonicalName := name, attributes := attrs }
  else e

/-- The row an upsert adds. -/
def newEntity (env : GraphEnv) (g : Graph) (k : EntityKey) (name : String)
    (attrs : Attributes) : KgEntity :=
  { id := env.uuid4 g.drawn, ownerUserId := k.ownerUserId, type := k.type
    canonicalKey := k.canonicalKey, canonicalName := name
    attributes := attrs }

/-- What a write does. -/
def GraphWrite.apply (env : GraphEnv) (g : Graph) : GraphWrite → Graph
  | .entity k name attrs =>
      if ∃ e ∈ g.entities, e.key = k then
        { g with entities := g.entities.map (renamed k name attrs) }
      else
        { g with
          entities := g.entities ++ [newEntity env g k name attrs]
          drawn := g.drawn + 1 }
  | .aliasRow row =>
      if row ∈ g.aliases then g
      else { g with aliases := g.aliases ++ [row] }
  | .edge row =>
      if ∃ e ∈ g.edges, e.key = row.key then g
      else { g with edges := g.edges ++ [row] }
  | .mention row => { g with mentions := g.mentions ++ [row] }

/-- An entity of the owner is there under the id. -/
def Graph.Has (g : Graph) (owner : String) (id : Uuid) : Prop :=
  ∃ e ∈ g.entities, e.id = id ∧ e.ownerUserId = owner

/-- A write is about entities that are there. -/
def GraphWrite.Placed (g : Graph) : GraphWrite → Prop
  | .entity .. => True
  | .aliasRow row => ∃ e ∈ g.entities, e.id = row.entityId
  | .edge row =>
      g.Has row.ownerUserId row.srcId ∧ g.Has row.ownerUserId row.dstId
  | .mention row => g.Has row.ownerUserId row.entityId

/-- Writes of the kind `P` lead from one graph to the other. -/
def Writes (env : GraphEnv) (P : GraphWrite → Prop) :
    Graph → Graph → Prop :=
  Relation.ReflTransGen fun g g' =>
    ∃ w : GraphWrite, w.Placed g ∧ P w ∧ g' = w.apply env g

-- ==================================================================== rows

section Rows

variable {env : GraphEnv} {g g' : Graph} {k k' : EntityKey}
  {name : String} {attrs : Attributes} {e : KgEntity} {w : GraphWrite}

theorem renamed_id : (renamed k name attrs e).id = e.id := by
  unfold renamed
  split <;> rfl

theorem renamed_key : (renamed k name attrs e).key = e.key := by
  unfold renamed
  split <;> rfl

theorem renamed_owner :
    (renamed k name attrs e).ownerUserId = e.ownerUserId := by
  unfold renamed
  split <;> rfl

theorem newEntity_key : (newEntity env g k name attrs).key = k := rfl

/-- A key has one row. -/
theorem Graph.Valid.row_iff (h : g.Valid env) :
    g.row k = some e ↔ e ∈ g.entities ∧ e.key = k := find_unique h.keys

theorem Graph.row_none :
    g.row k = none ↔ ∀ e ∈ g.entities, e.key ≠ k := find_none

theorem Graph.Valid.withKey (h : g.Valid env) :
    g.withKey k = (g.row k).toList := filter_unique h.keys

/-- An id has one row. -/
theorem Graph.Valid.eq_of_id (h : g.Valid env) {e' : KgEntity}
    (he : e ∈ g.entities) (he' : e' ∈ g.entities) (hid : e.id = e'.id) :
    e = e' := List.inj_on_of_nodup_map h.ids he he' hid

/-- The id an upsert draws is new. -/
theorem Graph.Valid.fresh (h : g.Valid env) (he : e ∈ g.entities) :
    e.id ≠ (newEntity env g k name attrs).id := by
  intro hid
  obtain ⟨n, hn, hen⟩ := h.drawn e he
  rw [hen] at hid
  have hsame := env.uuid4_injective hid
  omega

end Rows

-- ================================================================== effects

section Effects

variable {env : GraphEnv} {g g' : Graph} {k k' : EntityKey}
  {name : String} {attrs : Attributes} {e : KgEntity} {w : GraphWrite}

theorem apply_entity_some (h : g.row k = some e) :
    (GraphWrite.entity k name attrs).apply env g
      = { g with entities := g.entities.map (renamed k name attrs) } := by
  refine if_pos ⟨e, List.mem_of_find?_eq_some h, ?_⟩
  simpa using List.find?_some h

theorem apply_entity_none (h : g.row k = none) :
    (GraphWrite.entity k name attrs).apply env g
      = { g with
          entities := g.entities ++ [newEntity env g k name attrs]
          drawn := g.drawn + 1 } := by
  refine if_neg ?_
  rintro ⟨e, he, hk⟩
  exact Graph.row_none.mp h e he hk

/-- A write keeps the constraints. -/
theorem Graph.Valid.apply (h : g.Valid env) : (w.apply env g).Valid env := by
  cases w with
  | entity k name attrs =>
      cases hrow : g.row k with
      | some e =>
          rw [apply_entity_some hrow]
          refine { h with ids := ?_, keys := ?_, drawn := ?_ }
          · rw [map_column fun _ => renamed_id]
            exact h.ids
          · rw [map_column fun _ => renamed_key]
            exact h.keys
          · intro e' he'
            obtain ⟨e, he, rfl⟩ := List.mem_map.mp he'
            rw [renamed_id]
            exact h.drawn e he
      | none =>
          rw [apply_entity_none hrow]
          refine { h with ids := ?_, keys := ?_, drawn := ?_ }
          · exact nodup_concat h.ids fun e he => h.fresh he
          · exact nodup_concat h.keys fun e he => Graph.row_none.mp hrow e he
          · intro e he
            rcases List.mem_append.mp he with he | he
            · obtain ⟨n, hn, hid⟩ := h.drawn e he
              exact ⟨n, Nat.lt_succ_of_lt hn, hid⟩
            · rw [List.mem_singleton.mp he]
              exact ⟨g.drawn, Nat.lt_succ_self _, rfl⟩
  | aliasRow row =>
      unfold GraphWrite.apply
      simp only
      split
      · exact h
      · rename_i hnew
        refine { h with aliases := ?_ }
        exact List.nodup_append.mpr ⟨h.aliases, List.nodup_singleton _,
          fun a ha b hb hab => hnew (by
            rw [← List.mem_singleton.mp hb, ← hab]
            exact ha)⟩
  | edge row =>
      unfold GraphWrite.apply
      simp only
      split
      · exact h
      · rename_i hnew
        refine { h with edges := ?_ }
        exact nodup_concat h.edges fun e he hk => hnew ⟨e, he, hk⟩
  | mention row => exact { h with }

/-- What an upsert makes of the rows. -/
theorem row_apply_entity (h : g.Valid env) :
    ((GraphWrite.entity k name attrs).apply env g).row k'
      = if k' = k then
          some (match g.row k with
            | some e =>
                { e with canonicalName := name, attributes := attrs }
            | none => newEntity env g k name attrs)
        else g.row k' := by
  cases hrow : g.row k with
  | some e =>
      rw [apply_entity_some hrow]
      have hmap : Graph.row
          { g with entities := g.entities.map (renamed k name attrs) } k'
          = (g.row k').map (renamed k name attrs) :=
        find_map fun _ => renamed_key
      obtain ⟨-, hk⟩ := h.row_iff.mp hrow
      rw [hmap]
      by_cases hk' : k' = k
      · subst hk'
        rw [if_pos rfl, hrow]
        simp only [Option.map_some, renamed, if_pos hk]
      · rw [if_neg hk']
        cases hrow' : g.row k' with
        | none => rfl
        | some e' =>
            obtain ⟨-, hke⟩ := h.row_iff.mp hrow'
            rw [Option.map_some, renamed, if_neg (hke ▸ hk')]
  | none =>
      rw [apply_entity_none hrow]
      unfold Graph.row at hrow ⊢
      simp only [List.find?_append]
      by_cases hk' : k' = k
      · subst hk'
        rw [if_pos rfl, hrow, Option.none_or]
        exact List.find?_cons_of_pos (by simp [newEntity_key])
      · rw [if_neg hk']
        have hnone : [newEntity env g k name attrs].find?
            (fun e => e.key = k') = none := by
          rw [find_none]
          intro e he
          rw [List.mem_singleton.mp he, newEntity_key]
          exact Ne.symm hk'
        rw [hnone, Option.or_none]

/-- A table changes by writes of its own kind only. -/
theorem entities_apply (h : ∀ k name attrs, w ≠ .entity k name attrs) :
    (w.apply env g).entities = g.entities := by
  cases w with
  | entity k name attrs => exact absurd rfl (h k name attrs)
  | aliasRow row =>
      unfold GraphWrite.apply
      simp only
      split <;> rfl
  | edge row =>
      unfold GraphWrite.apply
      simp only
      split <;> rfl
  | mention row => rfl

theorem aliases_apply (h : ∀ row, w ≠ .aliasRow row) :
    (w.apply env g).aliases = g.aliases := by
  cases w with
  | entity k name attrs =>
      unfold GraphWrite.apply
      simp only
      split <;> rfl
  | aliasRow row => exact absurd rfl (h row)
  | edge row =>
      unfold GraphWrite.apply
      simp only
      split <;> rfl
  | mention row => rfl

theorem edges_apply (h : ∀ row, w ≠ .edge row) :
    (w.apply env g).edges = g.edges := by
  cases w with
  | entity k name attrs =>
      unfold GraphWrite.apply
      simp only
      split <;> rfl
  | aliasRow row =>
      unfold GraphWrite.apply
      simp only
      split <;> rfl
  | edge row => exact absurd rfl (h row)
  | mention row => rfl

theorem mentions_apply (h : ∀ row, w ≠ .mention row) :
    (w.apply env g).mentions = g.mentions := by
  cases w with
  | entity k name attrs =>
      unfold GraphWrite.apply
      simp only
      split <;> rfl
  | aliasRow row =>
      unfold GraphWrite.apply
      simp only
      split <;> rfl
  | edge row =>
      unfold GraphWrite.apply
      simp only
      split <;> rfl
  | mention row => exact absurd rfl (h row)

/-- An edge that is written is there, if under an older row. -/
theorem edge_written {row : KgEdge} :
    ∃ e ∈ ((GraphWrite.edge row).apply env g).edges, e.key = row.key := by
  unfold GraphWrite.apply
  simp only
  split
  · assumption
  · exact ⟨row, List.mem_append_right _ (List.mem_singleton_self _), rfl⟩

end Effects

-- ================================================================= helpers

section Helpers

variable {env : GraphEnv} {g : Graph} {k : EntityKey} {name : String}
  {attrs : Attributes} {row : KgEntity}

theorem scalarOneOrNone_toList {α : Type} (o : Option α) :
    scalarOneOrNone o.toList = .ok o := by
  cases o <;> rfl

theorem insertEntity_wp (hrow : g.row k = none) :
    Wp (insertEntity env k name attrs) (fun row g' =>
      row = newEntity env g k name attrs
        ∧ g' = (GraphWrite.entity k name attrs).apply env g) g := by
  refine ⟨_, _, if_neg ?_, rfl, (apply_entity_none hrow).symm⟩
  rintro ⟨e, he, hk⟩
  exact Graph.row_none.mp hrow e he hk

theorem updateEntity_wp (h : g.Valid env) (hrow : g.row k = some row) :
    Wp (updateEntity row name attrs) (fun row' g' =>
      row' = { row with canonicalName := name, attributes := attrs }
        ∧ g' = (GraphWrite.entity k name attrs).apply env g) g := by
  refine ⟨_, _, rfl, rfl, ?_⟩
  obtain ⟨hmem, hk⟩ := h.row_iff.mp hrow
  rw [apply_entity_some hrow]
  -- the row of the id is the row of the key
  have hsame : g.entities.map (fun e => if e.id = row.id then
      { row with canonicalName := name, attributes := attrs } else e)
      = g.entities.map (renamed k name attrs) := by
    refine List.map_congr_left fun e he => ?_
    unfold renamed
    by_cases hid : e.id = row.id
    · obtain rfl := h.eq_of_id he hmem hid
      rw [if_pos rfl, if_pos hk]
    · have hke : e.key ≠ k := fun hke =>
        hid (congrArg KgEntity.id (List.inj_on_of_nodup_map h.keys he hmem
          (hke.trans hk.symm)))
      rw [if_neg hid, if_neg hke]
  exact congrArg (fun l => { g with entities := l }) hsame

/-- Both upserts come to one write, and return the row of the key. -/
theorem upsertRow_wp (h : g.Valid env) :
    Wp (upsertRow env k name attrs) (fun row g' =>
      g' = (GraphWrite.entity k name attrs).apply env g
        ∧ g'.row k = some row) g := by
  have hinsert : g.row k = none →
      Wp (insertEntity env k name attrs) (fun row g' =>
        g' = (GraphWrite.entity k name attrs).apply env g
          ∧ g'.row k = some row) g := by
    intro hrow
    refine (insertEntity_wp hrow).mono ?_
    rintro row g' ⟨rfl, rfl⟩
    refine ⟨rfl, ?_⟩
    rw [row_apply_entity h, if_pos rfl, hrow]
  have hupdate : ∀ row, g.row k = some row →
      Wp (updateEntity row name attrs) (fun row g' =>
        g' = (GraphWrite.entity k name attrs).apply env g
          ∧ g'.row k = some row) g := by
    intro row hrow
    refine (updateEntity_wp h hrow).mono ?_
    rintro row' g' ⟨rfl, rfl⟩
    refine ⟨rfl, ?_⟩
    rw [row_apply_entity h, if_pos rfl, hrow]
  unfold upsertRow
  split
  · unfold pgUpsertEntity
    rw [wp_bind, wp_get]
    cases hrow : g.row k with
    | none =>
        rw [show g.entities.find? (fun e => e.key = k) = none from hrow]
        exact hinsert hrow
    | some row =>
        rw [show g.entities.find? (fun e => e.key = k) = some row from hrow]
        exact hupdate row hrow
  · unfold ormUpsertEntity
    rw [wp_bind, wp_get, wp_bind, wp_liftM]
    refine ⟨g.row k, ?_, ?_⟩
    · rw [h.withKey]
      exact scalarOneOrNone_toList _
    · cases hrow : g.row k with
      | none => exact hinsert hrow
      | some row => exact hupdate row hrow

theorem upsertAlias_wp (h : g.Valid env) {id : Uuid} :
    Wp (upsertAlias env id name) (fun _ g' =>
      g' = (GraphWrite.aliasRow ⟨id, name⟩).apply env g) g := by
  unfold upsertAlias
  split
  · exact wp_modify.mpr rfl
  · refine wp_bind.mpr (wp_get.mpr (wp_bind.mpr (wp_liftM.mpr ?_)))
    have hunique : (g.aliases.map fun a => a).Nodup := by
      rw [List.map_id']
      exact h.aliases
    refine ⟨_, by
      rw [filter_unique hunique]
      exact scalarOneOrNone_toList _, ?_⟩
    cases hfind : g.aliases.find? fun a => a = ⟨id, name⟩ with
    | none =>
        refine wp_modify.mpr (if_neg fun hmem => ?_).symm
        exact find_none.mp hfind _ hmem rfl
    | some row =>
        obtain ⟨hmem, rfl⟩ := (find_unique hunique).mp hfind
        exact wp_pure.mpr (if_pos hmem).symm

theorem addEdge_wp (h : g.Valid env) {edge : KgEdge} :
    Wp (addEdge env edge) (fun _ g' =>
      g' = (GraphWrite.edge edge).apply env g) g := by
  unfold addEdge
  split
  · exact wp_modify.mpr rfl
  · refine wp_bind.mpr (wp_get.mpr (wp_bind.mpr (wp_liftM.mpr ?_)))
    refine ⟨_, by
      rw [filter_unique h.edges]
      exact scalarOneOrNone_toList _, ?_⟩
    cases hfind : g.edges.find? fun e => e.key = edge.key with
    | none =>
        refine wp_modify.mpr (if_neg ?_).symm
        rintro ⟨e, he, hkey⟩
        exact find_none.mp hfind e he hkey
    | some e =>
        exact wp_pure.mpr (if_pos ⟨e, (find_unique h.edges).mp hfind⟩).symm

theorem addMention_wp (env : GraphEnv) {m : KgMention} :
    Wp (addMention m) (fun _ g' =>
      g' = (GraphWrite.mention m).apply env g) g := wp_modify.mpr rfl

end Helpers

-- ============================================================== references

/-- An alias is one of an entity that is there. -/
def Graph.AliasRefs (g : Graph) : Prop :=
  ∀ a ∈ g.aliases, ∃ e ∈ g.entities, e.id = a.entityId

/-- The entities a write refers to are there. -/
def GraphWrite.Refers (g : Graph) : GraphWrite → Prop
  | .aliasRow row => ∃ e ∈ g.entities, e.id = row.entityId
  | .edge row => (∃ e ∈ g.entities, e.id = row.srcId)
      ∧ ∃ e ∈ g.entities, e.id = row.dstId
  | _ => True

/-- An edge joins entities that are there. -/
def Graph.EdgeRefs (g : Graph) : Prop :=
  ∀ d ∈ g.edges, (∃ e ∈ g.entities, e.id = d.srcId)
    ∧ ∃ e ∈ g.entities, e.id = d.dstId

-- ========================================================== runs of writes

section Runs

variable {env : GraphEnv} {P P' : GraphWrite → Prop} {g g' g'' : Graph}
  {w : GraphWrite} {k : EntityKey} {e : KgEntity}

theorem Writes.refl : Writes env P g g := Relation.ReflTransGen.refl

theorem Writes.trans (h : Writes env P g g') (h' : Writes env P g' g'') :
    Writes env P g g'' := Relation.ReflTransGen.trans h h'

theorem Writes.one (hplaced : w.Placed g) (hP : P w) :
    Writes env P g (w.apply env g) :=
  Relation.ReflTransGen.single ⟨w, hplaced, hP, rfl⟩

theorem Writes.mono (hP : ∀ w, P w → P' w) (h : Writes env P g g') :
    Writes env P' g g' := by
  refine Relation.ReflTransGen.mono ?_ _ _ h
  rintro g g' ⟨w, hplaced, hw, hg⟩
  exact ⟨w, hplaced, hP w hw, hg⟩

/-- What every write of a kind keeps is kept. -/
theorem Writes.invariant {I : Graph → Prop} (h : Writes env P g g')
    (hI : I g)
    (hstep : ∀ g w, I g → w.Placed g → P w → I (w.apply env g)) :
    I g' := by
  induction h with
  | refl => exact hI
  | tail _ hlast ih =>
      obtain ⟨w, hplaced, hw, rfl⟩ := hlast
      exact hstep _ w ih hplaced hw

theorem Writes.valid (h : Writes env P g g') (hv : g.Valid env) :
    g'.Valid env := h.invariant hv fun _ _ hv _ _ => hv.apply

/-- A write keeps every row, up to its name and attributes. -/
theorem apply_keeps (he : e ∈ g.entities) :
    ∃ e' ∈ (w.apply env g).entities, e'.id = e.id ∧ e'.key = e.key := by
  by_cases h : ∃ k name attrs, w = .entity k name attrs
  · obtain ⟨k, name, attrs, rfl⟩ := h
    unfold GraphWrite.apply
    simp only
    split
    · exact ⟨_, List.mem_map_of_mem he, renamed_id, renamed_key⟩
    · exact ⟨e, List.mem_append_left _ he, rfl, rfl⟩
  · rw [entities_apply fun k name attrs hw => h ⟨k, name, attrs, hw⟩]
    exact ⟨e, he, rfl, rfl⟩

/-- A row there after a write was there, or is the row it adds. -/
theorem mem_entities_apply (h : e ∈ (w.apply env g).entities) :
    (∃ e₀ ∈ g.entities, e₀.id = e.id ∧ e₀.key = e.key)
      ∨ ∃ name attrs, w = .entity e.key name attrs := by
  by_cases hw : ∃ k name attrs, w = .entity k name attrs
  · obtain ⟨k, name, attrs, rfl⟩ := hw
    unfold GraphWrite.apply at h
    simp only at h
    split at h
    · obtain ⟨e₀, he₀, rfl⟩ := List.mem_map.mp h
      exact Or.inl ⟨e₀, he₀, renamed_id.symm, renamed_key.symm⟩
    · rcases List.mem_append.mp h with h | h
      · exact Or.inl ⟨e, h, rfl, rfl⟩
      · rw [List.mem_singleton.mp h]
        exact Or.inr ⟨name, attrs, rfl⟩
  · rw [entities_apply fun k name attrs hk => hw ⟨k, name, attrs, hk⟩]
      at h
    exact Or.inl ⟨e, h, rfl, rfl⟩

theorem mem_aliases_apply {a : KgAlias}
    (h : a ∈ (w.apply env g).aliases) : a ∈ g.aliases ∨ w = .aliasRow a := by
  by_cases hw : ∃ row, w = .aliasRow row
  · obtain ⟨row, rfl⟩ := hw
    unfold GraphWrite.apply at h
    simp only at h
    split at h
    · exact Or.inl h
    · exact (List.mem_append.mp h).imp_right fun ha =>
        congrArg _ (List.mem_singleton.mp ha).symm
  · rw [aliases_apply fun row hrow => hw ⟨row, hrow⟩] at h
    exact Or.inl h

theorem mem_edges_apply {edge : KgEdge}
    (h : edge ∈ (w.apply env g).edges) :
    edge ∈ g.edges ∨ w = .edge edge := by
  by_cases hw : ∃ row, w = .edge row
  · obtain ⟨row, rfl⟩ := hw
    unfold GraphWrite.apply at h
    simp only at h
    split at h
    · exact Or.inl h
    · exact (List.mem_append.mp h).imp_right fun he =>
        congrArg _ (List.mem_singleton.mp he).symm
  · rw [edges_apply fun row hrow => hw ⟨row, hrow⟩] at h
    exact Or.inl h

theorem mem_mentions_apply {m : KgMention}
    (h : m ∈ (w.apply env g).mentions) :
    m ∈ g.mentions ∨ w = .mention m := by
  by_cases hw : ∃ row, w = .mention row
  · obtain ⟨row, rfl⟩ := hw
    exact (List.mem_append.mp h).imp_right fun he =>
      congrArg _ (List.mem_singleton.mp he).symm
  · rw [mentions_apply fun row hrow => hw ⟨row, hrow⟩] at h
    exact Or.inl h

/-- An id that is there stays. -/
theorem apply_keeps_id {id : Uuid} (h : ∃ e ∈ g.entities, e.id = id) :
    ∃ e ∈ (w.apply env g).entities, e.id = id := by
  obtain ⟨e, he, rfl⟩ := h
  obtain ⟨e', he', hid, -⟩ := apply_keeps (w := w) he
  exact ⟨e', he', hid⟩

theorem GraphWrite.Placed.refers (h : w.Placed g) : w.Refers g := by
  cases w with
  | entity k name attrs => trivial
  | aliasRow row => exact h
  | edge row =>
      exact h.imp (fun ⟨e, he, hid, _⟩ => ⟨e, he, hid⟩)
        fun ⟨e, he, hid, _⟩ => ⟨e, he, hid⟩
  | mention row => trivial

theorem aliasRefs_apply (h : g.AliasRefs) (hrefers : w.Refers g) :
    (w.apply env g).AliasRefs := by
  intro a ha
  rcases mem_aliases_apply ha with hold | rfl
  · exact apply_keeps_id (h a hold)
  · exact apply_keeps_id hrefers

theorem edgeRefs_apply (h : g.EdgeRefs) (hrefers : w.Refers g) :
    (w.apply env g).EdgeRefs := by
  intro d hd
  rcases mem_edges_apply hd with hold | rfl
  · exact (h d hold).imp apply_keeps_id apply_keeps_id
  · exact hrefers.imp apply_keeps_id apply_keeps_id

theorem Writes.keeps (h : Writes env P g g') (he : e ∈ g.entities) :
    ∃ e' ∈ g'.entities, e'.id = e.id ∧ e'.key = e.key := by
  refine h.invariant (I := fun g' => ∃ e' ∈ g'.entities,
    e'.id = e.id ∧ e'.key = e.key) ⟨e, he, rfl, rfl⟩ ?_
  rintro g w ⟨e', he', hid, hkey⟩ _ _
  obtain ⟨e'', he'', hid', hkey'⟩ := apply_keeps (w := w) he'
  exact ⟨e'', he'', hid'.trans hid, hkey'.trans hkey⟩

theorem Writes.has (h : Writes env P g g') {owner : String} {id : Uuid}
    (hhas : g.Has owner id) : g'.Has owner id := by
  obtain ⟨e, he, hid, howner⟩ := hhas
  obtain ⟨e', he', hid', hkey⟩ := h.keeps he
  exact ⟨e', he', hid'.trans hid,
    (congrArg EntityKey.ownerUserId hkey).trans howner⟩

/-- The row of a key keeps its id. -/
theorem Writes.row (h : Writes env P g g') (hv : g.Valid env)
    (hrow : g.row k = some e) :
    ∃ e', g'.row k = some e' ∧ e'.id = e.id ∧ e'.key = k := by
  obtain ⟨hmem, rfl⟩ := hv.row_iff.mp hrow
  obtain ⟨e', he', hid, hkey⟩ := h.keeps hmem
  exact ⟨e', (h.valid hv).row_iff.mpr ⟨he', hkey⟩, hid, hkey⟩

/-- Mentions and edges are only added. -/
theorem Writes.mentions (h : Writes env P g g') :
    g.mentions <+: g'.mentions := by
  refine h.invariant (I := fun g' => g.mentions <+: g'.mentions)
    (List.prefix_refl _) ?_
  intro g' w hg' _ _
  refine hg'.trans ?_
  by_cases hw : ∃ row, w = .mention row
  · obtain ⟨row, rfl⟩ := hw
    exact List.prefix_append _ _
  · rw [mentions_apply fun row hrow => hw ⟨row, hrow⟩]

theorem Writes.edges (h : Writes env P g g') : g.edges <+: g'.edges := by
  refine h.invariant (I := fun g' => g.edges <+: g'.edges)
    (List.prefix_refl _) ?_
  intro g' w hg' _ _
  refine hg'.trans ?_
  by_cases hw : ∃ row, w = .edge row
  · obtain ⟨row, rfl⟩ := hw
    unfold GraphWrite.apply
    simp only
    split
    · exact List.prefix_refl _
    · exact List.prefix_append _ _
  · rw [edges_apply fun row hrow => hw ⟨row, hrow⟩]

end Runs

end LegalBot.Memory
