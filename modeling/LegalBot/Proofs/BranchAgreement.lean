/-
The writers of the graph on Postgres and on the portable database.

# Calls

A caller has the ids it passes to `_upsert_alias` and `add_edge` from the
rows of the tables; the ids that are generated differ from run to run. So
a call names an entity by its key (`WriterCall`), and the two runs pass
each the id that the row of the key has there.

# Agreement

Either branch of a writer does to the contents of the tables what the
writer is for (`call_refines`), and keeps the constraints. So do runs of
calls (`calls_refine`), and two databases that start with the same tables
go through the same contents, whatever ids each draws
(`branches_agree`).
-/
import LegalBot.Memory.Contents
import LegalBot.Memory.Histories

namespace LegalBot.Memory

open Programs

-- ============================================================== statements

/-- A call of `upsert_entity`, `_upsert_alias` or `add_edge`. -/
inductive WriterCall where
  | upsertEntity (k : EntityKey) (name : String) (attrs : Attributes)
      (aliasName : Option String)
  | upsertAlias (k : EntityKey) (name : String)
  | addEdge (src dst : EntityKey) (args : EdgeArgs)

/-- Make a call; without the rows it names there are no ids to make it
with. -/
def WriterCall.run (env : GraphEnv) : WriterCall → GraphM (Option KgEntity)
  | .upsertEntity k name attrs aliasName => do
      let row ← LegalBot.Memory.upsertEntity env k name attrs aliasName
      return some row
  | .upsertAlias k name => do
      match (← get).row k with
      | none => return none
      | some e =>
          LegalBot.Memory.upsertAlias env e.id name
          return none
  | .addEdge src dst args => do
      match (← get).row src, (← get).row dst with
      | some s, some d =>
          LegalBot.Memory.addEdge env (args.edge s.id d.id)
          return none
      | _, _ => return none

/-- What a call is for. -/
def WriterCall.apply (t : Contents) : WriterCall → Contents
  | .upsertEntity k name attrs aliasName =>
      match aliasName with
      | none => t.upsert k name attrs
      | some a =>
          if strip a = "" then t.upsert k name attrs
          else (t.upsert k name attrs).addAlias k (strip a)
  | .upsertAlias k name => if t.Has k then t.addAlias k name else t
  | .addEdge src dst args =>
      if t.Has src ∧ t.Has dst then t.addEdge ⟨some src, some dst, args⟩
      else t

/-- The key of the row a call returns. -/
def WriterCall.returned : WriterCall → Option EntityKey
  | .upsertEntity k .. => some k
  | _ => none

/-- Calls one after the other. -/
def runCalls (env : GraphEnv) (calls : List WriterCall) :
    GraphM (List (Option KgEntity)) :=
  calls.mapM (WriterCall.run env)

/-- The unique and the foreign keys hold. -/
structure Graph.Constrained (env : GraphEnv) (g : Graph) : Prop where
  valid : g.Valid env
  aliasRefs : g.AliasRefs
  edgeRefs : g.EdgeRefs

/-- The rows that are there keep their ids and keys. -/
def Graph.Keeps (g g' : Graph) : Prop :=
  ∀ e ∈ g.entities, ∃ e' ∈ g'.entities, e'.id = e.id ∧ e'.key = e.key

/-- The service on one of the databases, with ids of its own. -/
def GraphEnv.onDatabase (env : GraphEnv) (postgres : Bool)
    (uuid4 : Nat → Uuid) (h : Function.Injective uuid4) : GraphEnv :=
  { env with postgres := postgres, uuid4 := uuid4, uuid4_injective := h }

-- ================================================================== calls

section Calls

variable {env : GraphEnv} {g : Graph} {k : EntityKey} {name : String}
  {attrs : Attributes} {e : KgEntity} {w : GraphWrite}

theorem Graph.Constrained.apply (h : g.Constrained env)
    (hrefers : w.Refers g) : (w.apply env g).Constrained env :=
  ⟨h.valid.apply, aliasRefs_apply h.aliasRefs hrefers,
    edgeRefs_apply h.edgeRefs hrefers⟩

theorem Graph.Keeps.refl : g.Keeps g := fun e he => ⟨e, he, rfl, rfl⟩

theorem Graph.Keeps.trans {g' g'' : Graph} (h : g.Keeps g')
    (h' : g'.Keeps g'') : g.Keeps g'' := by
  intro e he
  obtain ⟨e', he', hid, hkey⟩ := h e he
  obtain ⟨e'', he'', hid', hkey'⟩ := h' e' he'
  exact ⟨e'', he'', hid'.trans hid, hkey'.trans hkey⟩

theorem apply_keepsAll : g.Keeps (w.apply env g) := fun _ he =>
  apply_keeps he

/-- What a call leaves, and the key of the row it returns. -/
structure Refined (env : GraphEnv) (g : Graph) (c : WriterCall)
    (row : Option KgEntity) (g' : Graph) : Prop where
  constrained : g'.Constrained env
  keeps : g.Keeps g'
  contents : g'.contents = c.apply g.contents
  returned : row.map KgEntity.key = c.returned

theorem alias_refines (name : String) (h : g.Constrained env)
    (hrow : g.row k = some e) :
    ((GraphWrite.aliasRow ⟨e.id, name⟩).apply env g).Constrained env
      ∧ ((GraphWrite.aliasRow ⟨e.id, name⟩).apply env g).contents
        = g.contents.addAlias k name :=
  ⟨h.apply ⟨e, (h.valid.row_iff.mp hrow).1, rfl⟩,
    contents_alias h.valid hrow⟩

theorem upsert_refines (h : g.Constrained env)
    {aliasName : Option String} :
    Wp ((WriterCall.upsertEntity k name attrs aliasName).run env)
      (Refined env g (.upsertEntity k name attrs aliasName)) g := by
  unfold WriterCall.run upsertEntity
  refine wp_bind.mpr (wp_bind.mpr ((upsertRow_wp h.valid).mono ?_))
  rintro row g₁ ⟨rfl, hrow⟩
  have h₁ : ((GraphWrite.entity k name attrs).apply env g).Constrained
      env := h.apply trivial
  have hcontents : ((GraphWrite.entity k name attrs).apply env g).contents
      = g.contents.upsert k name attrs :=
    contents_entity h.valid h.aliasRefs h.edgeRefs
  have hkey : (some row).map KgEntity.key = some k :=
    congrArg some (h₁.valid.row_iff.mp hrow).2
  refine wp_bind.mpr ((forM_addAliases h₁.valid).mono ?_)
  rintro _ g₂ rfl
  refine wp_pure.mpr (wp_pure.mpr ?_)
  cases aliasName with
  | none =>
      change Refined env g _ (some row)
        ((GraphWrite.entity k name attrs).apply env g)
      exact ⟨h₁, apply_keepsAll, hcontents, hkey⟩
  | some a =>
      rw [Option.toList_some, addAliases_cons]
      change Refined env g _ _ (addAlias env row.id _ a)
      unfold addAlias
      by_cases hblank : strip a = ""
      · rw [if_pos hblank]
        refine ⟨h₁, apply_keepsAll, ?_, hkey⟩
        rw [WriterCall.apply, if_pos hblank]
        exact hcontents
      · obtain ⟨h₂, halias⟩ := alias_refines (strip a) h₁ hrow
        rw [if_neg hblank]
        refine ⟨h₂, apply_keepsAll.trans apply_keepsAll, ?_, hkey⟩
        rw [WriterCall.apply, if_neg hblank, ← hcontents]
        exact halias

theorem upsertAlias_refines (h : g.Constrained env) :
    Wp ((WriterCall.upsertAlias k name).run env)
      (Refined env g (.upsertAlias k name)) g := by
  unfold WriterCall.run
  refine wp_bind.mpr (wp_get.mpr ?_)
  cases hrow : g.row k with
  | none =>
      have hnot : ¬ g.contents.Has k := by
        rw [has_contents, hrow]
        rintro ⟨e, ⟨⟩⟩
      exact wp_pure.mpr ⟨h, .refl, (if_neg hnot).symm, rfl⟩
  | some e =>
      refine wp_bind.mpr ((upsertAlias_wp h.valid).mono ?_)
      rintro _ g' rfl
      obtain ⟨h', halias⟩ := alias_refines name h hrow
      exact wp_pure.mpr ⟨h', apply_keepsAll, halias.trans
        (if_pos (has_contents.mpr ⟨e, hrow⟩)).symm, rfl⟩

theorem addEdge_refines (h : g.Constrained env) {src dst : EntityKey}
    {args : EdgeArgs} :
    Wp ((WriterCall.addEdge src dst args).run env)
      (Refined env g (.addEdge src dst args)) g := by
  unfold WriterCall.run
  refine wp_bind.mpr (wp_get.mpr (wp_bind.mpr (wp_get.mpr ?_)))
  have hskip : ¬ (g.contents.Has src ∧ g.contents.Has dst) →
      Wp (pure none : GraphM (Option KgEntity))
        (Refined env g (.addEdge src dst args)) g :=
    fun hnot => wp_pure.mpr ⟨h, .refl, (if_neg hnot).symm, rfl⟩
  cases hsrc : g.row src with
  | none =>
      refine hskip fun hhas => ?_
      obtain ⟨e, he⟩ := has_contents.mp hhas.1
      cases hsrc.symm.trans he
  | some s =>
      cases hdst : g.row dst with
      | none =>
          refine hskip fun hhas => ?_
          obtain ⟨e, he⟩ := has_contents.mp hhas.2
          cases hdst.symm.trans he
      | some d =>
          refine wp_bind.mpr ((addEdge_wp h.valid).mono ?_)
          rintro _ g' rfl
          have hthere : g.contents.Has src ∧ g.contents.Has dst :=
            ⟨has_contents.mpr ⟨s, hsrc⟩, has_contents.mpr ⟨d, hdst⟩⟩
          have hedge := contents_edge h.valid args hsrc hdst
          have hrefers : (GraphWrite.edge (args.edge s.id d.id)).Refers g :=
            ⟨⟨s, (h.valid.row_iff.mp hsrc).1, rfl⟩,
              ⟨d, (h.valid.row_iff.mp hdst).1, rfl⟩⟩
          exact wp_pure.mpr ⟨h.apply hrefers, apply_keepsAll,
            hedge.trans (if_pos hthere).symm, rfl⟩

/-- Either branch of a writer does what the writer is for. -/
theorem call_refines (h : g.Constrained env) (c : WriterCall) :
    Wp (c.run env) (Refined env g c) g := by
  cases c with
  | upsertEntity k name attrs aliasName => exact upsert_refines h
  | upsertAlias k name => exact upsertAlias_refines h
  | addEdge src dst args => exact addEdge_refines h

/-- So do calls one after the other. -/
theorem calls_refine (calls : List WriterCall) :
    ∀ {g : Graph}, g.Constrained env →
      Wp (runCalls env calls) (fun rows g' => g.Keeps g'
        ∧ g'.contents = calls.foldl WriterCall.apply g.contents
        ∧ rows.map (Option.map KgEntity.key)
          = calls.map WriterCall.returned) g := by
  unfold runCalls
  induction calls with
  | nil =>
      intro g h
      rw [List.mapM_nil]
      exact wp_pure.mpr ⟨.refl, rfl, rfl⟩
  | cons c calls ih =>
      intro g h
      rw [List.mapM_cons]
      refine wp_bind.mpr ((call_refines h c).mono ?_)
      intro row g₁ hcall
      refine wp_bind.mpr ((ih hcall.constrained).mono ?_)
      rintro rows g₂ ⟨hkeeps, hrest, hkeys⟩
      refine wp_pure.mpr ⟨hcall.keeps.trans hkeeps, ?_, ?_⟩
      · rw [List.foldl_cons, ← hcall.contents]
        exact hrest
      · rw [List.map_cons, List.map_cons, hcall.returned, hkeys]

/-- From the same tables, Postgres and the portable database run the same
calls without raising, return rows of the same keys, leave the same
contents, and keep the ids of the rows that were there. -/
theorem branches_agree {env : GraphEnv} {u v : Nat → Uuid}
    (hu : Function.Injective u) (hv : Function.Injective v)
    (h₁ : g.Constrained (env.onDatabase true u hu))
    (h₂ : g.Constrained (env.onDatabase false v hv))
    (calls : List WriterCall) :
    ∃ rows g₁ rows' g₂,
      runCalls (env.onDatabase true u hu) calls g = .ok (rows, g₁)
        ∧ runCalls (env.onDatabase false v hv) calls g = .ok (rows', g₂)
        ∧ g₁.contents = g₂.contents ∧ g.Keeps g₁ ∧ g.Keeps g₂
        ∧ rows.map (Option.map KgEntity.key)
          = rows'.map (Option.map KgEntity.key) := by
  obtain ⟨rows, g₁, hrun, hkeeps, hcontents, hkeys⟩ :=
    calls_refine calls h₁
  obtain ⟨rows', g₂, hrun', hkeeps', hcontents', hkeys'⟩ :=
    calls_refine calls h₂
  exact ⟨rows, g₁, rows', g₂, hrun, hrun',
    hcontents.trans hcontents'.symm, hkeeps, hkeeps',
    hkeys.trans hkeys'.symm⟩

end Calls

-- =============================================================== scenarios

section Scenarios

/-- One organization. -/
def acmeTables : Graph :=
  { Graph.empty with
    entities := [⟨0, "u1", .organization, "acme", "Acme", []⟩], drawn := 1 }

/-- Both streams have drawn its id first. -/
theorem acmeTables_constrained {env : GraphEnv} (h : env.uuid4 0 = 0) :
    acmeTables.Constrained env where
  valid :=
    { ids := by decide
      keys := by decide
      drawn := by
        intro e he
        rw [List.mem_singleton.mp he]
        exact ⟨0, by decide, h.symm⟩
      aliases := .nil
      edges := .nil }
  aliasRefs := fun _ ha => absurd ha List.not_mem_nil
  edgeRefs := fun _ hd => absurd hd List.not_mem_nil

theorem double_injective : Function.Injective fun k : Nat => 2 * k :=
  fun _ _ h => Nat.eq_of_mul_eq_mul_left Nat.two_pos h

/-- A person who works there is added twice, with an alias and an edge. -/
def hiring : List WriterCall :=
  [.upsertEntity ⟨"u1", .person, "ann@example.org"⟩ "Ann" [] (some "Ann"),
    .upsertAlias ⟨"u1", .organization, "acme"⟩ "Acme Ltd",
    .addEdge ⟨"u1", .person, "ann@example.org"⟩
      ⟨"u1", .organization, "acme"⟩
      ⟨"u1", .affiliatedWith, [], 1, "deterministic", .run, 3⟩,
    .upsertEntity ⟨"u1", .person, "ann@example.org"⟩ "Ann B." [] none]

theorem hiring_agrees :
    ∃ rows g₁ rows' g₂,
      runCalls ((GraphEnv.sample true).onDatabase true (fun k => k)
          Function.injective_id) hiring acmeTables = .ok (rows, g₁)
        ∧ runCalls ((GraphEnv.sample true).onDatabase false
            (fun k => 2 * k) double_injective) hiring acmeTables
          = .ok (rows', g₂)
        ∧ g₁.contents = g₂.contents ∧ acmeTables.Keeps g₁
        ∧ acmeTables.Keeps g₂
        ∧ rows.map (Option.map KgEntity.key)
          = rows'.map (Option.map KgEntity.key) :=
  branches_agree Function.injective_id double_injective
    (acmeTables_constrained rfl) (acmeTables_constrained rfl) hiring

end Scenarios

end LegalBot.Memory
