/-
Which projected entities share a row.

# Identities

The canonical key of a contract is its type and parties, that of a
document its session and artifact or its law area: two of them with
different keys are two things. `resolutions` is what the index calls of a
history have resolved, with the row each time.

# Merging

An entity whose key has no row is merged into the row of its owner and
type that its name alone matches, if there is exactly one. The name is no
identity: the documents of every session have the same names.
`noMerge` asks that no contract or document is resolved so. Then every
one is resolved to the row of its key (`Logged`), rows keep their ids and
keys, and two keys have two rows.
-/
import LegalBot.Memory.Histories

namespace LegalBot.Memory

open Programs

-- ============================================================== statements

/-- The types whose keys tell things apart: contracts, analysis documents
and law areas. -/
def EntityType.identityBearing : EntityType → Bool
  | .contract | .document => true
  | _ => false

/-- What an action resolves, if it is committed. -/
def resolvedBy (env : GraphEnv) (a : IndexAction) (s : GraphState) :
    List (ProjectionEntity × KgEntity) :=
  match a with
  | .run runId reply =>
      match indexRun env s.sources runId reply s.graph with
      | .ok (r, _) => r.2
      | .error _ => []
  | _ => []

/-- What a history resolves. -/
def resolutions (env : GraphEnv) (acts : List IndexAction) :
    List (ProjectionEntity × KgEntity) :=
  Lts.collect (GraphState.step env) (resolvedBy env) .init acts

/-- No contract or document among the entities of a projection is merged
when its turn comes. -/
def loopUnmerged (env : GraphEnv) (owner : String) (runId itemId : Uuid) :
    List ProjectionEntity → Graph → Bool
  | [], _ => true
  | p :: rest, g =>
      (!p.entityType.identityBearing
          || !decide (Merges env g (p.entityKey owner) p.canonicalName))
        && match applyEntity env owner runId itemId p g with
          | .ok (_, g') => loopUnmerged env owner runId itemId rest g'
          | .error _ => true

/-- No call merges a contract or a document. -/
def noMerge (env : GraphEnv) (a : IndexAction) (s : GraphState) : Bool :=
  match a with
  | .run runId reply =>
      match runTarget s.sources runId with
      | .error _ => true
      | .ok (run, item) =>
          match indexItem env s.sources item s.graph,
            runProjection env s.sources run.sessionId reply with
          | .ok (_, g), .ok projection =>
              loopUnmerged env item.ownerUserId run.id item.id
                projection.entities g
          | _, _ => true
  | _ => true

/-- The row an entity was resolved to is that of its type and key. -/
def Logged (g : Graph) (r : ProjectionEntity × KgEntity) : Prop :=
  ∃ e ∈ g.entities, e.id = r.2.id ∧ e.type = r.1.entityType
    ∧ e.canonicalKey = r.1.canonicalKey

/-- All contracts and documents among some. -/
def AllLogged (g : Graph) (rs : List (ProjectionEntity × KgEntity)) :
    Prop :=
  ∀ r ∈ rs, r.1.entityType.identityBearing = true → Logged g r

-- =================================================================== calls

section Calls

variable {env : GraphEnv} {g g' : Graph} {owner : String}
  {runId itemId : Uuid} {projection : GraphProjection}
  {rs : List (ProjectionEntity × KgEntity)}

theorem AllLogged.later {P : GraphWrite → Prop}
    (h : AllLogged g rs) (hwrites : Writes env P g g') :
    AllLogged g' rs := by
  intro r hr hid
  obtain ⟨e, he, heid, htype, hkey⟩ := h r hr hid
  obtain ⟨e', he', heid', hsame⟩ := hwrites.keeps he
  exact ⟨e', he', heid'.trans heid,
    (congrArg EntityKey.type hsame).trans htype,
    (congrArg EntityKey.canonicalKey hsame).trans hkey⟩

/-- The loop over the entities. -/
theorem applyEntities_logged {ps : List ProjectionEntity} :
    ∀ {g : Graph}, g.Valid env → (∀ p ∈ ps, p ∈ projection.entities) →
      loopUnmerged env owner runId itemId ps g = true →
      Wlp (ps.mapM (applyEntity env owner runId itemId))
        (fun rs g' => Writes env (RunWrite owner projection) g g'
          ∧ AllLogged g' rs) g := by
  induction ps with
  | nil =>
      intro g _ _ _
      rw [List.mapM_nil, wlp_pure]
      exact ⟨.refl, fun _ hr => absurd hr List.not_mem_nil⟩
  | cons p rest ih =>
      intro g h hps hloop
      rw [List.mapM_cons, wlp_bind]
      intro r g₁ hcall
      obtain ⟨h₁, hp, g₂, hresolves, hsame⟩ :=
        (applyEntity_wp h (hps p List.mem_cons_self)).wlp r g₁ hcall
      rw [loopUnmerged, hcall, Bool.and_eq_true] at hloop
      obtain ⟨hfirst, hrest⟩ := hloop
      rw [wlp_bind]
      refine (ih (h₁.valid h)
        (fun q hq => hps q (List.mem_cons_of_mem p hq)) hrest).mono ?_
      rintro rs g₃ ⟨h₃, hlogged⟩
      rw [wlp_pure]
      refine ⟨h₁.trans h₃, ?_⟩
      have hone : AllLogged g₁ [r] := by
        intro x hx hid
        obtain rfl := List.mem_singleton.mp hx
        rw [hp] at hid
        have hnot : ¬ Merges env g (p.entityKey owner) p.canonicalName := by
          simpa [hid] using hfirst
        obtain ⟨e, he, heid, -, -, -, hkey⟩ := hresolves.found
        refine ⟨e, hsame ▸ he, heid, ?_, ?_⟩
        · rw [hp]
          exact congrArg EntityKey.type (hkey hnot)
        · rw [hp]
          exact congrArg EntityKey.canonicalKey (hkey hnot)
      intro x hx hid
      rcases List.mem_cons.mp hx with rfl | hx
      · exact hone.later h₃ x (List.mem_singleton_self x) hid
      · exact hlogged x hx hid

theorem applyProjection_logged {item : IngestionItem} {email : KgEntity}
    (h : g.Valid env) (hemail : g.Has item.ownerUserId email.id)
    (hloop : loopUnmerged env item.ownerUserId runId item.id
      projection.entities g = true) :
    Wlp (applyProjection env item.ownerUserId projection email runId item)
      (fun r g' => AllLogged g' r.1) g := by
  unfold applyProjection
  refine wlp_bind.mpr (((applyEntities_wp h).wlp.and
    (applyEntities_logged h (fun _ hp => hp) hloop)).mono ?_)
  rintro rs g₁ ⟨⟨h₁, hrs⟩, -, hlogged⟩
  refine wlp_bind.mpr ((applyEdges_wlp (h₁.valid h)
    ⟨h₁.has hemail, fun r hr => (hrs r hr).2⟩).mono ?_)
  rintro _ g₂ ⟨h₂, -⟩
  exact wlp_pure.mpr (hlogged.later h₂)

end Calls

-- ==================================================================== runs

/-- One action: what was resolved stays with its row, and what is
resolved now gets its own. -/
theorem apply_logged {env : GraphEnv} {a : IndexAction} {s : GraphState}
    {rs : List (ProjectionEntity × KgEntity)} (h : s.graph.Valid env)
    (hc : noMerge env a s = true) (hl : AllLogged s.graph rs) :
    AllLogged (a.apply env s).graph (rs ++ resolvedBy env a s) := by
  have hold := hl.later (apply_writes (a := a) h)
  have hnone : resolvedBy env a s = [] →
      AllLogged (a.apply env s).graph (rs ++ resolvedBy env a s) := by
    intro hempty
    rw [hempty, List.append_nil]
    exact hold
  cases a with
  | store sources => exact hnone rfl
  | item itemId => exact hnone rfl
  | run runId reply =>
      cases hcall : indexRun env s.sources runId reply s.graph with
      | error e =>
          refine hnone ?_
          simp only [resolvedBy, hcall]
      | ok res =>
          obtain ⟨r, g'⟩ := res
          have hgraph : ((IndexAction.run runId reply).apply env s).graph
              = g' := by
            simp only [IndexAction.apply, committed, hcall]
          have hlog : resolvedBy env (.run runId reply) s = r.2 := by
            simp only [resolvedBy, hcall]
          rw [hgraph] at hold
          rw [hgraph, hlog]
          have hnew : AllLogged g' r.2 := by
            cases htarget : runTarget s.sources runId with
            | error reason =>
                rw [indexRun, htarget] at hcall
                cases hcall
                exact fun _ hr => absurd hr List.not_mem_nil
            | ok target =>
                obtain ⟨run, item⟩ := target
                rw [indexRun, htarget] at hcall
                obtain ⟨projection, row, g₁, hi⟩ :=
                  indexRunOf_wlp h r g' hcall
                obtain ⟨r₀, hitem⟩ := hi.called
                obtain ⟨n, happlied⟩ := hi.applied
                have h₁ := (hi.before h).valid h
                simp only [noMerge, htarget, hitem, hi.projected] at hc
                exact applyProjection_logged h₁ (h₁.has_row hi.found) hc
                  _ _ happlied
          intro x hx hid
          exact (List.mem_append.mp hx).elim (fun hx => hold x hx hid)
            fun hx => hnew x hx hid

/-- Two rows of one id are one. -/
theorem keys_of_logged {env : GraphEnv} {g : Graph} (h : g.Valid env)
    {r r' : ProjectionEntity × KgEntity} (hr : Logged g r)
    (hr' : Logged g r') (hid : r.2.id = r'.2.id) :
    r.1.canonicalKey = r'.1.canonicalKey := by
  obtain ⟨e, he, heid, -, hkey⟩ := hr
  obtain ⟨e', he', heid', -, hkey'⟩ := hr'
  have hsame := h.eq_of_id he he' (heid.trans (hid.trans heid'.symm))
  rw [← hkey, ← hkey', hsame]

/-- While no call merges a contract or a document, two of them with
different keys are never resolved to one row. -/
theorem identities_kept_apart (env : GraphEnv) {acts : List IndexAction}
    (hc : Lts.Along (GraphState.step env)
      (fun a s _ => noMerge env a s = true) .init acts) :
    ∀ r ∈ resolutions env acts, ∀ r' ∈ resolutions env acts,
      r.1.entityType.identityBearing = true →
      r'.1.entityType.identityBearing = true →
      r.1.canonicalKey ≠ r'.1.canonicalKey → r.2.id ≠ r'.2.id := by
  have hfinal := Lts.collect_along (f := resolvedBy env)
    (P := fun s rs => s.graph.Valid env ∧ AllLogged s.graph rs)
    (fun s a s' rs hinv hcond hstep => by
      injection hstep with hstep
      subst hstep
      exact ⟨apply_valid hinv.1, apply_logged hinv.1 hcond hinv.2⟩)
    (l := []) ⟨empty_valid, fun _ hr => absurd hr List.not_mem_nil⟩ hc
    after_run
  rw [List.nil_append] at hfinal
  obtain ⟨hvalid, hlogged⟩ := hfinal
  intro r hr r' hr' hid hid' hkeys hrow
  exact hkeys (keys_of_logged hvalid (hlogged r hr hid)
    (hlogged r' hr' hid') hrow)

-- =============================================================== scenarios

/-- Two analysed messages. -/
def Sources.twoSessions : Sources :=
  { Sources.empty with
    items := ⟨[.sample 1 "u1" none none, .sample 2 "u1" none none],
      by decide⟩
    runs := ⟨[sampleRun 1, sampleRun 2], by decide⟩
    jobs := ⟨[sampleJob 1, sampleJob 2], by decide⟩
    artifacts := [sampleAnalysis 1 "analysis/extracted",
      sampleAnalysis 1 "analysis/report",
      sampleAnalysis 2 "analysis/extracted"] }

/-- One session: its two documents have two rows. -/
theorem one_session_kept_apart :
    let rs := resolutions (.sample true)
      [.store .twoSessions, .run 1 none]
    rs ≠ [] ∧ ∀ r ∈ rs, ∀ r' ∈ rs,
      r.1.entityType.identityBearing = true →
      r'.1.entityType.identityBearing = true →
      r.1.canonicalKey ≠ r'.1.canonicalKey → r.2.id ≠ r'.2.id := by
  refine ⟨?_, identities_kept_apart (.sample true) ?_⟩
  · intro hnone
    have hlength := congrArg List.length hnone
    revert hlength
    decide +kernel
  rintro s ⟨⟩
  refine ⟨rfl, ?_⟩
  rintro s ⟨⟩
  exact ⟨by decide +kernel, trivial⟩

/-- Two sessions: the extraction of the second is resolved to the row of
the first. -/
theorem extractions_conflated :
    ∃ r ∈ resolutions (.sample true)
        [.store .twoSessions, .run 1 none, .run 2 none],
      ∃ r' ∈ resolutions (.sample true)
        [.store .twoSessions, .run 1 none, .run 2 none],
      r.1.entityType = .document ∧ r'.1.entityType = .document
        ∧ r.1.canonicalKey = "artifact:1:analysis/extracted"
        ∧ r'.1.canonicalKey = "artifact:2:analysis/extracted"
        ∧ r.2.id = r'.2.id := by
  decide +kernel

end LegalBot.Memory
