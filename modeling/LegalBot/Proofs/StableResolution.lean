/-
Whether an entity that is resolved again comes back to its row.

# The key and the name

A call whose key has a row returns it, and no call takes a key from its
row. A call that merges goes by the name: it writes aliases of the row it
found, but no row of its own key, so the next call for that key starts
over in whatever graph there is then.

# When it is stable

`resolution_stable_iff`: the row of a call comes back after every history
of further calls exactly when the call does not merge. After a merge the
history that upserts the key itself leads to another row; so does a
second row that the name matches (`second_namesake_moves`).
-/
import LegalBot.Memory.Histories

namespace LegalBot.Memory

open Programs

-- ============================================================== statements

/-- A call of `resolve_entity` or `upsert_entity`. -/
inductive ResolveCall where
  | resolve (k : EntityKey) (name : String) (aliases : List String)
      (attrs : Attributes)
  | upsert (k : EntityKey) (name : String) (attrs : Attributes)
      (aliasName : Option String)

/-- The owner of a call. -/
def ResolveCall.owner : ResolveCall → String
  | .resolve k .. => k.ownerUserId
  | .upsert k .. => k.ownerUserId

/-- Make a call. -/
def ResolveCall.run (env : GraphEnv) : ResolveCall → GraphM KgEntity
  | .resolve k name aliases attrs => resolveEntity env k name aliases attrs
  | .upsert k name attrs aliasName => upsertEntity env k name attrs aliasName

/-- The graph some calls leave. -/
def afterCalls (env : GraphEnv) (calls : List ResolveCall) (g : Graph) :
    Graph := calls.foldl (fun g c => committed (c.run env) g) g

/-- The call returns a row, and once any calls of the owner have been made
it returns that row again. -/
def Stable (env : GraphEnv) (g : Graph) (k : EntityKey) (name : String)
    (aliases : List String) (attrs : Attributes) : Prop :=
  Wp (resolveEntity env k name aliases attrs) (fun row g' =>
    ∀ calls : List ResolveCall, (∀ c ∈ calls, c.owner = k.ownerUserId) →
      Wp (resolveEntity env k name aliases attrs)
        (fun row' _ => row'.id = row.id) (afterCalls env calls g')) g

-- =================================================================== calls

section Calls

variable {env : GraphEnv} {g g' : Graph} {k : EntityKey} {name : String}
  {aliases : List String} {attrs : Attributes} {row e : KgEntity}

/-- An upsert writes. -/
theorem upsertEntity_any (h : g.Valid env) {aliasName : Option String} :
    Wp (upsertEntity env k name attrs aliasName)
      (fun _ g' => Writes env AnyWrite g g') g := by
  cases aliasName with
  | none =>
      exact (upsertEntity_writes AnyWrite h trivial).mono
        fun _ _ hdone => hdone.1
  | some a =>
      exact (upsertEntity_some_wp AnyWrite h trivial
        fun _ _ => trivial).mono fun _ _ hdone => hdone.1

/-- A call is a run of writes. -/
theorem call_writes (h : g.Valid env) (c : ResolveCall) :
    Writes env AnyWrite g (committed (c.run env) g) := by
  cases c with
  | resolve k name aliases attrs =>
      have hcall : Wp (resolveEntity env k name aliases attrs)
          (fun _ g' => Writes env AnyWrite g g') g :=
        (resolveEntity_wp AnyWrite h trivial fun _ _ => trivial).mono
          fun _ _ hdone => hdone.1
      obtain ⟨_, -, hwrites⟩ := committed_of_wp hcall
      exact hwrites
  | upsert k name attrs aliasName =>
      have hcall : Wp (upsertEntity env k name attrs aliasName)
          (fun _ g' => Writes env AnyWrite g g') g := upsertEntity_any h
      obtain ⟨_, -, hwrites⟩ := committed_of_wp hcall
      exact hwrites

/-- So are some calls. -/
theorem afterCalls_writes (calls : List ResolveCall) :
    ∀ {g : Graph}, g.Valid env →
      Writes env AnyWrite g (afterCalls env calls g) := by
  unfold afterCalls
  induction calls with
  | nil => exact fun _ => .refl
  | cons c calls ih =>
      intro g h
      have hone := call_writes h c
      rw [List.foldl_cons]
      exact hone.trans (ih (hone.valid h))

/-- A key that has a row is resolved to it. -/
theorem resolve_row (h : g.Valid env) (hrow : g.row k = some e) :
    Wp (resolveEntity env k name aliases attrs)
      (fun row _ => row = e) g := by
  refine (resolveEntity_resolved h).mono fun row g' hres => ?_
  cases hres with
  | found hfound => exact Option.some.inj (hfound.symm.trans hrow)
  | merged hnone => cases hnone.symm.trans hrow
  | created hnone => cases hnone.symm.trans hrow

/-- The row of a key comes back, whatever else is called. -/
theorem row_comes_back (h : g.Valid env) (hrow : g.row k = some e)
    (calls : List ResolveCall) :
    Wp (resolveEntity env k name aliases attrs)
      (fun row _ => row.id = e.id) (afterCalls env calls g) := by
  have hwrites := afterCalls_writes calls h
  obtain ⟨e', hrow', hid, -⟩ := hwrites.row h hrow
  refine (resolve_row (hwrites.valid h) hrow').mono ?_
  rintro row _ rfl
  exact hid

/-- After a merge the key still has no row, and an upsert of it adds
one. -/
theorem merged_row_left (h : g.Valid env) (hrow : g.row k = none)
    (he : e ∈ g.entities) :
    Wp (resolveEntity env k name aliases attrs)
      (fun row _ => row.id ≠ e.id)
      (afterCalls env [.upsert k name attrs none] g) := by
  have hupsert : Wp (upsertEntity env k name attrs none) (fun row g' =>
      g' = (GraphWrite.entity k name attrs).apply env g
        ∧ g'.row k = some row) g := upsertEntity_none_wp h
  obtain ⟨_, -, hafter, -⟩ := committed_of_wp hupsert
  have hnew : (committed (upsertEntity env k name attrs none) g).row k
      = some (newEntity env g k name attrs) := by
    rw [hafter, row_apply_entity h, if_pos rfl, hrow]
  have hvalid : (committed (upsertEntity env k name attrs none) g).Valid
      env := hafter ▸ h.apply
  refine (resolve_row hvalid hnew).mono ?_
  rintro row _ rfl
  exact (h.fresh he).symm

/-- What a call that does not merge returns is the row of its key. -/
theorem Resolved.row_of_not_merges (h : g.Valid env)
    (hres : Resolved env g k name aliases attrs row g')
    (hnot : ¬ Merges env g k name) : g'.row k = some row := by
  cases hres with
  | found hrow => exact hrow
  | merged hrow hmatch => exact absurd ⟨hrow, by rw [hmatch]; rfl⟩ hnot
  | created hrow hmatch =>
      unfold Graph.row
      rw [addAliases_entities]
      change ((GraphWrite.entity k name attrs).apply env g).row k = _
      rw [row_apply_entity h, if_pos rfl, hrow]

/-- A call leaves a graph that meets the constraints. -/
theorem Resolved.valid (h : g.Valid env)
    (hres : Resolved env g k name aliases attrs row g') : g'.Valid env := by
  cases hres with
  | found hrow => exact h
  | merged hrow hmatch he hid howner htype => exact addAliases_valid h
  | created hrow hmatch => exact addAliases_valid h.apply

/-- The row a call resolves to comes back after every history of calls of
the owner exactly when the call does not merge. -/
theorem resolution_stable_iff (h : g.Valid env) :
    Stable env g k name aliases attrs ↔ ¬ Merges env g k name := by
  constructor
  · rintro ⟨row, g', hcall, hstable⟩ hmerges
    have hres := resolved_of_ok h hcall
    cases hres with
    | found hrow => exact not_merges_of_row hrow hmerges
    | created hrow hmatch =>
        rw [Merges, hmatch] at hmerges
        cases hmerges.2
    | merged hrow hmatch he hid howner htype =>
        have hrow' : (addAliases env row.id g (name :: aliases)).row k
            = none := by
          unfold Graph.row
          rw [addAliases_entities]
          exact hrow
        have hthere : row
            ∈ (addAliases env row.id g (name :: aliases)).entities := by
          rw [addAliases_entities]
          exact he
        have hagain := hstable [.upsert k name attrs none] fun c hc => by
          rw [List.mem_singleton.mp hc]
          rfl
        obtain ⟨row', g'', hcall', hsame⟩ := hagain
        exact (merged_row_left (addAliases_valid h) hrow' hthere).wlp
          row' g'' hcall' hsame
  · intro hnot
    refine (resolveEntity_resolved h).mono fun row g' hres calls _ => ?_
    exact row_comes_back (hres.valid h) (hres.row_of_not_merges h hnot)
      calls

end Calls

-- =============================================================== scenarios

section Scenarios

/-- A person known by the address, and as a run finds it. -/
def johnKey : EntityKey := ⟨"u1", .person, "john@example.org"⟩
def jonKey : EntityKey := ⟨"u1", .person, "jon smith"⟩

/-- Another person of nearly that name. -/
def secondKey : EntityKey := ⟨"u1", .person, "jon@example.org"⟩

def johnGraph : Graph :=
  (GraphWrite.entity johnKey "John Smith" []).apply .namesakes .empty

theorem johnGraph_valid : johnGraph.Valid .namesakes := empty_valid.apply

/-- A person resolved by the key comes back. -/
theorem john_stable :
    Stable .namesakes johnGraph johnKey "John Smith" [] [] :=
  (resolution_stable_iff johnGraph_valid).mpr (by decide +kernel)

/-- Once there is a second person of the name, the run that is indexed
again goes to a third row. -/
theorem second_namesake_moves :
    (∀ s q, GraphEnv.namesakes.similarity s q
        = GraphEnv.namesakes.similarity q s)
      ∧ (∀ s q, 0 ≤ GraphEnv.namesakes.similarity s q
        ∧ GraphEnv.namesakes.similarity s q ≤ 1)
      ∧ (∀ s, GraphEnv.namesakes.similarity s s = 1)
      ∧ johnGraph.Valid .namesakes
      ∧ ∃ row g' row' g'',
        resolveEntity .namesakes jonKey "Jon Smith" [] [] johnGraph
          = .ok (row, g')
        ∧ resolveEntity .namesakes jonKey "Jon Smith" [] []
            (afterCalls .namesakes [.upsert secondKey "Jon Smith" []
              (some "Jon Smith")] g') = .ok (row', g'')
        ∧ row'.id ≠ row.id := by
  refine ⟨fun s q => ?_, fun s q => ?_, fun s => if_pos rfl,
    johnGraph_valid, ?_⟩
  · unfold GraphEnv.namesakes
    simp only [eq_comm]
  · unfold GraphEnv.namesakes
    dsimp only
    split <;> exact ⟨by decide +kernel, by decide +kernel⟩
  · refine ⟨⟨0, "u1", .person, "john@example.org", "John Smith", []⟩,
      { johnGraph with aliases := [⟨0, "Jon Smith"⟩] },
      ⟨2, "u1", .person, "jon smith", "Jon Smith", []⟩,
      { entities :=
          [⟨0, "u1", .person, "john@example.org", "John Smith", []⟩,
            ⟨1, "u1", .person, "jon@example.org", "Jon Smith", []⟩,
            ⟨2, "u1", .person, "jon smith", "Jon Smith", []⟩]
        aliases := [⟨0, "Jon Smith"⟩, ⟨1, "Jon Smith"⟩, ⟨2, "Jon Smith"⟩]
        edges := [], mentions := [], drawn := 3 }, ?_⟩
    decide +kernel

end Scenarios

end LegalBot.Memory
