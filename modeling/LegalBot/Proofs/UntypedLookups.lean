/-
The lookups of the knowledge graph that do not name a type.

`index_run` looks up the entity of its item, and `_resolve_attachment_entity`
that of an attachment, by owner and key alone. Keys are unique per type
only; what makes these lookups unique is that a key of an item or of an
attachment is written under one type (`TypedWrite`), so every row has
such a key under that type or another key (`Graph.Typed`).

The lookups come in the middle of a call, on the graph it has made so far
(`LookupGraph`); what it has written by then is typed too.
-/
import LegalBot.Memory.Histories

namespace LegalBot.Memory

open Programs

-- ============================================================== statements

/-- A lookup by owner and key matches one row at most, and finds what a
lookup by the whole key finds. -/
structure Graph.FindsTyped (g : Graph) (k : EntityKey) : Prop where
  single : (g.withOwnerKey k.ownerUserId k.canonicalKey).length ≤ 1
  found : scalarOneOrNone (g.withOwnerKey k.ownerUserId k.canonicalKey)
    = .ok (g.row k)

/-- So do all lookups of items and of attachments. -/
structure Graph.FindsReserved (g : Graph) : Prop where
  item : ∀ owner id,
    g.FindsTyped ⟨owner, .email, ingestionItemCanonicalKey id⟩
  attachment : ∀ owner id,
    g.FindsTyped ⟨owner, .attachment, ingestionAttachmentCanonicalKey id⟩

/-- The graphs on which a call looks up without a type: the one that
indexing the item has left, and, after the projected entities, the ones
before each projected edge. -/
inductive LookupGraph (env : GraphEnv) (s : GraphState) : Graph → Prop where
  | item {item : IngestionItem} {r : IndexResult} {g : Graph}
      (hitem : indexItem env s.sources item s.graph = .ok (r, g)) :
      LookupGraph env s g
  | attachment {item : IngestionItem} {run : Run}
      {reply : Option (List LlmExtractedEntity)} {r : IndexResult}
      {g₁ g₂ g₃ : Graph} {email : KgEntity} {projection : GraphProjection}
      {resolved : List (ProjectionEntity × KgEntity)}
      {done rest : List ProjectionEdge} {added : List Bool}
      (hitem : indexItem env s.sources item s.graph = .ok (r, g₁))
      (hemail : g₁.row item.emailKey = some email)
      (hprojection : runProjection env s.sources run.sessionId reply
        = .ok projection)
      (hentities : projection.entities.mapM
        (applyEntity env item.ownerUserId run.id item.id) g₁
          = .ok (resolved, g₂))
      (hedges : projection.edges = done ++ rest)
      (hdone : done.mapM (applyEdge env item.ownerUserId run.id item email
        resolved) g₂ = .ok (added, g₃)) :
      LookupGraph env s g₃

-- ============================================================== invariant

/-- Every row has the key of an item or an attachment under its type, or
another key. -/
def Graph.Typed (g : Graph) : Prop :=
  ∀ e ∈ g.entities, e.key.Reserved ∨ Unreserved e.canonicalKey

section Invariant

variable {env : GraphEnv} {g g' : Graph} {k : EntityKey}

theorem Writes.typed (h : Writes env TypedWrite g g') (hg : g.Typed) :
    g'.Typed := by
  refine h.invariant hg fun g w hg _ hw e he => ?_
  rcases mem_entities_apply he with ⟨e₀, he₀, -, hkey⟩ | ⟨_, _, rfl⟩
  · have hcanonical : e₀.canonicalKey = e.canonicalKey :=
      congrArg EntityKey.canonicalKey hkey
    rcases hg e₀ he₀ with hreserved | hunreserved
    · exact Or.inl (hkey ▸ hreserved)
    · exact Or.inr (hcanonical ▸ hunreserved)
  · exact hw

theorem Graph.Typed.not_shared (hg : g.Typed) (hk : k.Reserved) :
    ¬ g.Shared k := by
  rintro ⟨e, he, -, hkey, htype⟩
  rcases hg e he with hreserved | hunreserved
  · exact htype (hreserved.type_eq hk hkey)
  · exact hk.reserved (hkey ▸ hunreserved)

theorem Graph.Typed.findsTyped (hg : g.Typed) (h : g.Valid env)
    (hk : k.Reserved) : g.FindsTyped k := by
  have hfound : scalarOneOrNone
      (g.withOwnerKey k.ownerUserId k.canonicalKey) = .ok (g.row k) := by
    cases hrow : g.row k with
    | none => exact lookup_none hrow (hg.not_shared hk)
    | some e => exact lookup_ok h hrow (hg.not_shared hk)
  refine ⟨?_, hfound⟩
  rw [scalarOneOrNone_ok hfound]
  cases g.row k with
  | none => exact Nat.zero_le 1
  | some e => exact le_rfl

theorem Graph.Typed.findsReserved (hg : g.Typed) (h : g.Valid env) :
    g.FindsReserved where
  item := fun _ id => hg.findsTyped h (Or.inl ⟨rfl, id, rfl⟩)
  attachment := fun _ id => hg.findsTyped h (Or.inr ⟨rfl, id, rfl⟩)

end Invariant

-- ================================================================= calls

section Calls

variable {env : GraphEnv} {s : GraphState} {g : Graph}

/-- Everything an action writes is typed. -/
theorem apply_typed {a : IndexAction} (h : s.graph.Valid env) :
    Writes env TypedWrite s.graph (a.apply env s).graph := by
  cases a with
  | store sources => exact .refl
  | item itemId =>
      rcases item_committed h with hsame | hdone
      · rw [IndexAction.apply, hsame]
        exact .refl
      · obtain ⟨item, parent, email, g₁, g₂, -, -, hindexed⟩ := hdone
        exact (hindexed.writes h).mono item_typed
  | run runId reply =>
      rcases run_committed h with hsame | hdone
      · rw [IndexAction.apply, hsame]
        exact .refl
      · obtain ⟨run, item, r, projection, row, g₁, -, -, hindexed⟩ := hdone
        have hplain := runProjection_plain projection hindexed.projected
        exact ((hindexed.before h).mono item_typed).trans
          ((hindexed.after h).1.mono (run_typed hplain))

theorem reaches_typed (hs : GraphReaches env Lts.Always s) :
    s.graph.Typed := by
  refine Lts.Reachable.invariant (P := fun s => s.graph.Typed)
    (fun _ he => by cases he) ?_ hs
  intro s a s' hr h _ hstep
  injection hstep with hstep
  subst hstep
  exact (apply_typed (reaches_valid hr)).typed h

theorem indexItem_typed {item : IngestionItem} {src : Sources}
    (h : g.Valid env) :
    Wlp (indexItem env src item) (fun _ g' =>
      Writes env TypedWrite g g' ∧ ∃ e, g'.row item.emailKey = some e) g := by
  cases hparent : parentItem src item with
  | error e => exact (indexItem_error hparent).mono (fun _ _ h => by cases h)
  | ok parent =>
      refine (indexItem_wp h hparent).wlp.mono ?_
      rintro _ g' ⟨email, g₁, g₂, hindexed, -⟩
      obtain ⟨row, hrow, -⟩ := hindexed.indexedRow h
      exact ⟨(hindexed.writes h).mono item_typed, row, hrow⟩

/-- So is everything it has written when it looks up. -/
theorem LookupGraph.typed (h : s.graph.Valid env)
    (hg : LookupGraph env s g) : Writes env TypedWrite s.graph g := by
  cases hg with
  | item hitem => exact (indexItem_typed h _ _ hitem).1
  | attachment hitem hemail hprojection hentities hedges hdone =>
      rename_i item run reply r g₁ g₂ email projection resolved done rest
        added
      have h₁ := (indexItem_typed h _ _ hitem).1
      have hv₁ := h₁.valid h
      have hplain := runProjection_plain projection hprojection
      obtain ⟨h₂, hresolved⟩ := (applyEntities_wp hv₁).wlp _ _ hentities
      have hsourced : Sourced g₂ item.ownerUserId email resolved :=
        ⟨h₂.has (hv₁.has_row hemail), fun r hr => (hresolved r hr).2⟩
      -- the edges done so far are those of a smaller projection
      let part : GraphProjection := { projection with edges := done }
      have hpart : part.Plain :=
        ⟨hplain.keys, fun e he => hplain.edges e (by
          rw [hedges]
          exact List.mem_append_left rest he)⟩
      have hdone' : part.edges.mapM (applyEdge env item.ownerUserId run.id
          item email resolved) g₂ = .ok (added, g) := hdone
      have h₃ := (applyEdges_wlp (h₂.valid hv₁) hsourced _ _ hdone').1
      exact h₁.trans ((h₂.mono (run_typed hplain)).trans
        (h₃.mono (run_typed hpart)))

/-- Lookups without a type are unambiguous in every state reached and in
the middle of every call; indexing an item leaves the row that the lookup
of a run finds. -/
theorem untyped_lookups_unique (env : GraphEnv) {s : GraphState}
    (hs : GraphReaches env Lts.Always s) :
    s.graph.FindsReserved
      ∧ (∀ g, LookupGraph env s g → g.FindsReserved)
      ∧ ∀ item r g, indexItem env s.sources item s.graph = .ok (r, g) →
        ∃ e, g.row item.emailKey = some e := by
  have hvalid := reaches_valid hs
  have htyped := reaches_typed hs
  refine ⟨htyped.findsReserved hvalid, fun g hg => ?_, fun item r g h => ?_⟩
  · have hwrites := hg.typed hvalid
    exact (hwrites.typed htyped).findsReserved (hwrites.valid hvalid)
  · exact (indexItem_typed hvalid _ _ h).2

end Calls

/-- A message that has been indexed. -/
theorem indexed_message_unique :
    (GraphState.after (GraphEnv.sample true)
      [.store { Sources.empty with
        items := ⟨[.sample 1 "u1" none none], by decide⟩ }, .item 1]
      .init).graph.FindsReserved :=
  (untyped_lookups_unique _ (after_reaches Lts.Reachable.init)).1

end LegalBot.Memory
