/-
The edges of a projection join entities of it.

# Closed projections

`build_projection_from_artifacts` and `build_artifact_anchor_projection`
draw an edge between entities that `add` has returned, from the email or
from an attachment under its file name; an edge names them by type and
key. `merge_projections` drops an entity whose type and key is taken, so
it keeps every name that an edge uses. What extraction and merging build
(`Built`) is therefore `Closed`: each name is that of an entity, and no
two deterministic entities share one.

# Applying them

`_apply_projection` resolves every entity before it looks at the edges, so
the only lookup that may fail is that of an attachment by its file name.
Such an edge is skipped (`Unattached`); each of the others has a row in
the end and is counted (`Applied`).
-/
import LegalBot.Memory.Histories

namespace LegalBot.Memory

open Programs
open Ranking (foldl_keepFirst_key foldl_keepFirst_keys
  mem_foldl_keepFirst)
open Relational (nodup_concat)

-- ============================================================== statements

/-- No two deterministic entities have a type and key in common, and
every edge joins what is there. -/
structure GraphProjection.Closed (tx : Texts) (p : GraphProjection) :
    Prop where
  unique : ((p.entities.filter fun e => e.origin ≠ "llm").map
    (·.bucket)).Nodup
  starts : ∀ d ∈ p.edges, p.Starts tx d
  ends : ∀ d ∈ p.edges, p.Holds d.dst

/-- The projections of artifacts, the entities of the model, and what
merging makes of them. -/
inductive Built (rt : Runtime) (tx : Texts) : GraphProjection → Prop
  | artifacts {artifacts : Attributes} {p : GraphProjection}
      (h : buildProjectionFromArtifacts rt tx artifacts = .ok p) :
      Built rt tx p
  | anchors {artifacts : Attributes} {sessionId : Uuid}
      {p : GraphProjection}
      (h : buildArtifactAnchorProjection rt tx artifacts sessionId
        = .ok p) : Built rt tx p
  | llm {raws : List LlmExtractedEntity}
      {entities : List ProjectionEntity}
      (h : raws.mapM (llmEntity rt tx) = .ok entities) :
      Built rt tx ⟨entities, []⟩
  | merge {base extra : GraphProjection} (hbase : Built rt tx base)
      (hextra : Built rt tx extra) :
      Built rt tx (mergeProjections base extra)

/-- The edge starts from an attachment by a file name, and no attachment
of the item has it. -/
def Unattached (env : GraphEnv) (item : IngestionItem)
    (d : ProjectionEdge) : Prop :=
  d.srcType = .attachment ∧ ∃ name ∈ filenameOf d.srcKey,
    ∀ att ∈ item.attachments, normalizeName env.texts att.name ≠ name

instance (env : GraphEnv) (item : IngestionItem) :
    DecidablePred (Unattached env item) := fun _ =>
  have (name : String) : Decidable (∀ att ∈ item.attachments,
      normalizeName env.texts att.name ≠ name) :=
    List.decidableBAll _ item.attachments
  inferInstanceAs (Decidable (_ ∧ _))

/-- Indexing the item has left its entity and those of its attachments. -/
def Graph.HasItem (g : Graph) (item : IngestionItem) (email : KgEntity) :
    Prop :=
  (g.row item.emailKey).map (·.id) = some email.id
    ∧ ∀ att ∈ item.attachments, ∃ e, g.row (attachmentKey item att) = some e

/-- The id of the entity an edge starts from. -/
def startId (env : GraphEnv) (g : Graph) (item : IngestionItem)
    (resolved : List (ProjectionEntity × KgEntity)) (d : ProjectionEdge) :
    Option Uuid :=
  if d.src = (.email, emailSrcKey) then (g.row item.emailKey).map (·.id)
  else
    match sourceAttachment env item d with
    | some att => (g.row (attachmentKey item att)).map (·.id)
    | none => (lookupEntity resolved d.srcType d.srcKey).map (·.id)

/-- The edge has its row, between the entities it joins. -/
def Drawn (env : GraphEnv) (item : IngestionItem) (runId : Uuid)
    (resolved : List (ProjectionEntity × KgEntity)) (d : ProjectionEdge)
    (g : Graph) : Prop :=
  ∃ src dst, startId env g item resolved d = some src
    ∧ lookupEntity resolved d.dstType d.dstKey = some dst
    ∧ ∃ row ∈ g.edges, row.key
      = ⟨item.ownerUserId, src, dst.id, d.relation, .run, runId⟩

/-- What applying a projection has done: `edges` is the number it
returns. -/
structure Applied (env : GraphEnv) (item : IngestionItem) (runId : Uuid)
    (p : GraphProjection) (resolved : List (ProjectionEntity × KgEntity))
    (edges : Nat) (g : Graph) : Prop where
  counted : edges = p.edges.countP fun d => ¬ Unattached env item d
  drawn : ∀ d ∈ p.edges, ¬ Unattached env item d →
    Drawn env item runId resolved d g

-- ================================================================= closing

section Closing

variable {rt : Runtime} {tx : Texts} {p q base extra : GraphProjection}
  {ent : ProjectionEntity} {d : ProjectionEdge}

theorem GraphProjection.Starts.mono
    (hmem : ∀ b, p.Holds b → q.Holds b) (h : p.Starts tx d) :
    q.Starts tx d :=
  h.imp_right (Or.imp_right (hmem _))

theorem holds_add {b : EntityType × String} (h : p.Holds b) :
    (p.add ent).2.Holds b := by
  obtain ⟨e, he, hb⟩ := h
  exact ⟨e, mem_add he, hb⟩

/-- An entity is added under a new name only. -/
theorem add_unique (h : (p.entities.map (·.bucket)).Nodup) :
    ((p.add ent).2.entities.map (·.bucket)).Nodup := by
  unfold GraphProjection.add
  split
  · exact h
  · rename_i hnone
    refine nodup_concat h fun e he hsame => ?_
    have hnot := List.find?_eq_none.mp hnone e he
    obtain ⟨htype, hkey⟩ := Prod.mk.inj hsame
    exact hnot (decide_eq_true ⟨htype, hkey⟩)

/-- The extraction builds closed projections. -/
theorem Grown.closed (h : Grown tx .empty p) :
    (p.entities.map (·.bucket)).Nodup ∧ (∀ d ∈ p.edges, p.Starts tx d)
      ∧ ∀ d ∈ p.edges, p.Holds d.dst := by
  induction h with
  | refl =>
      exact ⟨.nil, fun _ h => absurd h List.not_mem_nil,
        fun _ h => absurd h List.not_mem_nil⟩
  | @tail p q _ hlast ih =>
      obtain ⟨hunique, hstarts, hends⟩ := ih
      cases hlast with
      | @add ent hkey =>
          have hedges : (p.add ent).2.edges = p.edges := by
            unfold GraphProjection.add
            split <;> rfl
          rw [hedges]
          exact ⟨add_unique hunique,
            fun d hd => (hstarts d hd).mono fun _ => holds_add,
            fun d hd => holds_add (hends d hd)⟩
      | @edge e hrelation hsrc hdst =>
          refine ⟨hunique, fun d hd => ?_, fun d hd => ?_⟩
          · rcases List.mem_append.mp hd with hd | hd
            · exact hstarts d hd
            · rw [List.mem_singleton.mp hd]
              exact hsrc
          · rcases List.mem_append.mp hd with hd | hd
            · exact hends d hd
            · rw [List.mem_singleton.mp hd]
              exact hdst

theorem grown_closed (h : Grown tx .empty p) : p.Closed tx := by
  obtain ⟨hunique, hstarts, hends⟩ := h.closed
  exact ⟨hunique.sublist (List.filter_sublist.map _), hstarts, hends⟩

end Closing

-- ================================================================= merging

section Merging

variable {rt : Runtime} {tx : Texts} {base extra : GraphProjection}

/-- A name of either projection is one of the merged one. -/
theorem merge_holds {b : EntityType × String}
    (h : base.Holds b ∨ extra.Holds b) :
    (mergeProjections base extra).Holds b := by
  unfold GraphProjection.Holds mergeProjections
  rw [mergeEntity_eq]
  rcases h with ⟨e, he, hb⟩ | ⟨e, he, rfl⟩
  · exact ⟨e, mem_foldl_keepFirst.mpr (Or.inl he), hb⟩
  · exact foldl_keepFirst_key he

theorem merge_closed (hb : base.Closed tx) (he : extra.Closed tx) :
    (mergeProjections base extra).Closed tx := by
  refine ⟨?_, fun d hd => ?_, fun d hd => ?_⟩
  · unfold mergeProjections
    rw [mergeEntity_eq]
    exact foldl_keepFirst_keys hb.unique
  · rcases List.mem_append.mp hd with hd | hd
    · exact (hb.starts d hd).mono fun _ h => merge_holds (Or.inl h)
    · exact (he.starts d hd).mono fun _ h => merge_holds (Or.inr h)
  · rcases List.mem_append.mp hd with hd | hd
    · exact merge_holds (Or.inl (hb.ends d hd))
    · exact merge_holds (Or.inr (he.ends d hd))

theorem llmEntities_closed {raws : List LlmExtractedEntity} :
    Returns (raws.mapM (llmEntity rt tx)) (fun entities =>
      GraphProjection.Closed tx ⟨entities, []⟩) := by
  have horigin : Returns (raws.mapM (llmEntity rt tx))
      (fun entities => ∀ e ∈ entities, e.origin = "llm") := by
    refine Returns.mapM fun raw _ => ?_
    exact Returns.bind (S := fun _ => True) (fun _ _ => trivial)
      fun _ _ => returns_ok rfl
  intro entities hentities
  refine ⟨?_, fun _ h => absurd h List.not_mem_nil,
    fun _ h => absurd h List.not_mem_nil⟩
  have hnone : entities.filter (fun e => e.origin ≠ "llm") = [] :=
    List.filter_eq_nil_iff.mpr fun e he => by
      simp [horigin entities hentities e he]
  rw [hnone]
  exact .nil

theorem Built.closed {p : GraphProjection} (h : Built rt tx p) :
    p.Closed tx := by
  induction h with
  | artifacts h => exact grown_closed (buildProjection_grown _ h)
  | anchors h => exact grown_closed (buildAnchor_grown _ h)
  | llm h => exact llmEntities_closed _ h
  | merge hbase hextra ihb ihe => exact merge_closed ihb ihe

end Merging

-- ================================================================= sources

section Starting

variable {env : GraphEnv} {tx : Texts} {g g' : Graph}
  {item : IngestionItem} {email : KgEntity} {p : GraphProjection}
  {resolved : List (ProjectionEntity × KgEntity)} {d : ProjectionEdge}

theorem filenameOf_key {name : String} :
    filenameOf (attachmentFilenameKey tx name)
      = some (normalizeName tx name) := by
  unfold filenameOf attachmentFilenameKey startsWith
  rw [String.toList_append, if_pos (by simp), ← String.length_toList,
    List.drop_left, String.ofList_toList]

/-- The attachment a placeholder names, where it names one. -/
theorem sourceAttachment_some {name : String}
    (htype : d.srcType = .attachment)
    (hname : filenameOf d.srcKey = some name)
    (hnot : ¬ Unattached env item d) :
    ∃ att ∈ item.attachments, sourceAttachment env item d = some att := by
  have hsome : ∃ att ∈ item.attachments,
      normalizeName env.texts att.name = name := by
    by_contra hnone
    refine hnot ⟨htype, name, hname, fun att hatt hsame => ?_⟩
    exact hnone ⟨att, hatt, hsame⟩
  unfold sourceAttachment
  rw [htype, hname]
  obtain ⟨att, hatt, hsame⟩ := hsome
  have hfound : (item.attachments.find? fun att =>
      normalizeName env.texts att.name = name).isSome :=
    List.find?_isSome.mpr ⟨att, hatt, decide_eq_true hsame⟩
  obtain ⟨found, hfind⟩ := Option.isSome_iff_exists.mp hfound
  exact ⟨found, List.mem_of_find?_eq_some hfind, hfind⟩

/-- Every projected entity is resolved. -/
def Resolves (p : GraphProjection)
    (resolved : List (ProjectionEntity × KgEntity)) : Prop :=
  resolved.map (·.1) = p.entities

theorem Resolves.lookup (h : Resolves p resolved)
    {b : EntityType × String} (hb : p.Holds b) :
    ∃ e, lookupEntity resolved b.1 b.2 = some e := by
  obtain ⟨e, he, rfl⟩ := hb
  rw [← h] at he
  obtain ⟨r, hr, rfl⟩ := List.mem_map.mp he
  have hfound : (resolved.reverse.find? fun r' =>
      r'.1.entityType = r.1.entityType
        ∧ r'.1.canonicalKey = r.1.canonicalKey).isSome :=
    List.find?_isSome.mpr ⟨r, List.mem_reverse.mpr hr,
      decide_eq_true ⟨rfl, rfl⟩⟩
  obtain ⟨found, hfind⟩ := Option.isSome_iff_exists.mp hfound
  refine ⟨found.2, ?_⟩
  unfold lookupEntity ProjectionEntity.bucket
  rw [hfind]
  rfl

/-- The entity an edge starts from is there. -/
theorem startId_some (hitem : g.HasItem item email)
    (hresolves : Resolves p resolved) (hstarts : p.Starts env.texts d)
    (hnot : ¬ Unattached env item d) :
    ∃ id, startId env g item resolved d = some id := by
  unfold startId
  split
  · exact ⟨email.id, hitem.1⟩
  · rename_i hemail
    cases hatt : sourceAttachment env item d with
    | some att =>
        obtain ⟨e, hrow⟩ := hitem.2 att (sourceAttachment_mem hatt)
        exact ⟨e.id, congrArg (Option.map (·.id)) hrow⟩
    | none =>
        rcases hstarts with hsrc | ⟨name, hsrc⟩ | hholds
        · exact absurd hsrc hemail
        · obtain ⟨htype, hkey⟩ := Prod.mk.inj hsrc
          obtain ⟨att, -, hsome⟩ := sourceAttachment_some htype
            (hkey ▸ filenameOf_key) hnot
          cases hatt.symm.trans hsome
        · obtain ⟨e, he⟩ := hresolves.lookup hholds
          exact ⟨e.id, congrArg (Option.map (·.id)) he⟩

/-- The source the code finds is that entity. -/
theorem edgeSource_starts (h : g.Valid env) (hitem : g.HasItem item email)
    (hnot : ¬ Unattached env item d) :
    Wlp (edgeSource env item.ownerUserId item email resolved d)
      (fun src g' => g' = g
        ∧ src.map (·.id) = startId env g item resolved d) g := by
  unfold edgeSource startId
  by_cases hemail : d.srcType = .email ∧ d.srcKey = emailSrcKey
  · have hsrc : d.src = (.email, emailSrcKey) := Prod.ext hemail.1 hemail.2
    rw [if_pos hemail, if_pos hsrc]
    exact wlp_pure.mpr ⟨rfl, hitem.1.symm⟩
  · have hsrc : d.src ≠ (.email, emailSrcKey) := fun h =>
      hemail (Prod.mk.inj h)
    rw [if_neg hemail, if_neg hsrc]
    split
    · rename_i name htype hname
      obtain ⟨att, hatt, hsome⟩ := sourceAttachment_some htype hname hnot
      obtain ⟨e, hrow⟩ := hitem.2 att hatt
      rw [hsome]
      simp only [hrow]
      rw [sourceAttachment, htype, hname] at hsome
      simp only at hsome
      unfold resolveAttachmentEntity
      rw [hsome]
      refine wlp_bind.mpr (wlp_get.mpr (wlp_liftM.mpr fun o ho => ?_))
      -- the lookup finds the row of the attachment, if it finds one only
      have hmem : e ∈ g.withOwnerKey item.ownerUserId
          (ingestionAttachmentCanonicalKey att.id) := by
        obtain ⟨he, hkey⟩ := h.row_iff.mp hrow
        refine List.mem_filter.mpr ⟨he, decide_eq_true ⟨?_, ?_⟩⟩
        · exact congrArg EntityKey.ownerUserId hkey
        · exact congrArg EntityKey.canonicalKey hkey
      rw [scalarOneOrNone_ok ho, Option.mem_toList] at hmem
      rw [hmem]
      exact ⟨rfl, rfl⟩
    · rename_i hnone
      have hatt : sourceAttachment env item d = none := by
        unfold sourceAttachment
        split
        · rename_i name htype hname
          exact absurd hname (hnone name htype)
        · rfl
      rw [hatt]
      exact wlp_pure.mpr ⟨rfl, rfl⟩

/-- No attachment has the name: no source. -/
theorem edgeSource_none (h : Unattached env item d) :
    Wlp (edgeSource env item.ownerUserId item email resolved d)
      (fun src g' => g' = g ∧ src = none) g := by
  obtain ⟨htype, name, hname, hnone⟩ := h
  have hfind : item.attachments.find? (fun att =>
      normalizeName env.texts att.name = name) = none :=
    List.find?_eq_none.mpr fun att hatt => by simp [hnone att hatt]
  unfold edgeSource
  rw [if_neg (by rw [htype]; simp), htype, hname]
  unfold resolveAttachmentEntity
  simp only [hfind]
  exact wlp_pure.mpr ⟨rfl, rfl⟩

end Starting

-- ================================================================ applying

section Applying

variable {env : GraphEnv} {g g' : Graph} {item : IngestionItem}
  {runId : Uuid} {email : KgEntity} {p : GraphProjection}
  {resolved : List (ProjectionEntity × KgEntity)} {d : ProjectionEdge}
  {P : GraphWrite → Prop}

theorem Graph.HasItem.later (hitem : g.HasItem item email)
    (h : g.Valid env) (hwrites : Writes env P g g') :
    g'.HasItem item email := by
  refine ⟨?_, fun att hatt => ?_⟩
  · obtain ⟨row, hrow, hid⟩ := Option.map_eq_some_iff.mp hitem.1
    obtain ⟨row', hrow', hid', -⟩ := hwrites.row h hrow
    rw [hrow', ← hid, ← hid']
    rfl
  · obtain ⟨e, hrow⟩ := hitem.2 att hatt
    obtain ⟨e', hrow', -⟩ := hwrites.row h hrow
    exact ⟨e', hrow'⟩

/-- Where the entities stay as they are, an edge keeps its row. -/
theorem Drawn.later (hdrawn : Drawn env item runId resolved d g)
    (hsame : g'.entities = g.entities) (hedges : g.edges <+: g'.edges) :
    Drawn env item runId resolved d g' := by
  obtain ⟨src, dst, hsrc, hdst, row, hrow, hkey⟩ := hdrawn
  refine ⟨src, dst, ?_, hdst, row, hedges.subset hrow, hkey⟩
  unfold startId Graph.row
  rw [hsame]
  exact hsrc

theorem applyEdge_skips (hskip : Unattached env item d) :
    Wlp (applyEdge env item.ownerUserId runId item email resolved d)
      (fun added g' => added = false ∧ g' = g) g := by
  unfold applyEdge
  refine wlp_bind.mpr ((edgeSource_none hskip).mono ?_)
  rintro src g₁ ⟨rfl, rfl⟩
  exact wlp_pure.mpr ⟨rfl, rfl⟩

theorem applyEdge_draws (h : g.Valid env) (hitem : g.HasItem item email)
    (hresolves : Resolves p resolved) (hstarts : p.Starts env.texts d)
    (hends : p.Holds d.dst) (hnot : ¬ Unattached env item d) :
    Wlp (applyEdge env item.ownerUserId runId item email resolved d)
      (fun added g' => added = true
        ∧ Drawn env item runId resolved d g') g := by
  unfold applyEdge
  refine wlp_bind.mpr ((edgeSource_starts h hitem hnot).mono ?_)
  rintro src g₁ ⟨rfl, hsrc⟩
  obtain ⟨id, hid⟩ := startId_some hitem hresolves hstarts hnot
  obtain ⟨e, rfl, rfl⟩ := Option.map_eq_some_iff.mp (hsrc.trans hid)
  obtain ⟨dst, hdst⟩ := hresolves.lookup hends
  have hdst : lookupEntity resolved d.dstType d.dstKey = some dst := hdst
  rw [hdst]
  unfold addProjectedEdge
  refine wlp_bind.mpr ((addEdge_wp h).wlp.mono ?_)
  rintro _ g' rfl
  refine wlp_pure.mpr ⟨rfl, e.id, dst, ?_, hdst, edge_written⟩
  unfold startId Graph.row at hid ⊢
  rw [entities_apply (by simp)]
  exact hid

/-- The loop over the edges. -/
theorem applyEdges_applied (h : g.Valid env)
    (hs : Sourced g item.ownerUserId email resolved)
    (hitem : g.HasItem item email) (hresolves : Resolves p resolved)
    (hclosed : p.Closed env.texts) :
    Wlp (p.edges.mapM
      (applyEdge env item.ownerUserId runId item email resolved))
      (fun added g' =>
        Applied env item runId p resolved (added.count true) g') g := by
  refine (Wlp.mapM_done (K := fun done added g' =>
    Writes env (RunWrite item.ownerUserId p) g g'
      ∧ g'.entities = g.entities
      ∧ added = done.map (fun d => decide (¬ Unattached env item d))
      ∧ ∀ d ∈ done, ¬ Unattached env item d →
        Drawn env item runId resolved d g')
    ⟨.refl, rfl, rfl, fun _ h => absurd h List.not_mem_nil⟩ ?_).mono ?_
  · rintro done d hd added g₁ ⟨h₁, hsame, rfl, hdrawn⟩
    have hold : ∀ {g₂ : Graph}, g₂.entities = g₁.entities →
        g₁.edges <+: g₂.edges → ∀ d ∈ done, ¬ Unattached env item d →
          Drawn env item runId resolved d g₂ :=
      fun hent hedges d hd hnot => (hdrawn d hd hnot).later hent hedges
    by_cases hskip : Unattached env item d
    · refine (applyEdge_skips hskip).mono ?_
      rintro _ g₂ ⟨rfl, rfl⟩
      refine ⟨h₁, hsame, by simp [hskip], fun d' hd' hnot => ?_⟩
      rcases List.mem_append.mp hd' with hd' | hd'
      · exact hdrawn d' hd' hnot
      · exact absurd (List.mem_singleton.mp hd' ▸ hskip) hnot
    · refine ((applyEdge_wlp (h₁.valid h) (hs.later h₁) hd).and
        (applyEdge_draws (h₁.valid h) (hitem.later h h₁) hresolves
          (hclosed.starts d hd) (hclosed.ends d hd) hskip)).mono ?_
      rintro _ g₂ ⟨⟨h₂, hsame'⟩, rfl, hnew⟩
      refine ⟨h₁.trans h₂, hsame'.trans hsame, by simp [hskip],
        fun d' hd' hnot => ?_⟩
      rcases List.mem_append.mp hd' with hd' | hd'
      · exact hold hsame' h₂.edges d' hd' hnot
      · exact List.mem_singleton.mp hd' ▸ hnew
  · rintro added g' ⟨-, -, rfl, hdrawn⟩
    refine ⟨?_, hdrawn⟩
    rw [List.count_eq_countP, List.countP_map]
    exact List.countP_congr fun d _ => by simp

/-- The loop over the entities resolves each of them. -/
theorem applyEntities_resolves {itemId : Uuid} {owner : String} :
    Wlp (p.entities.mapM (applyEntity env owner runId itemId))
      (fun resolved _ => Resolves p resolved) g := by
  unfold Resolves
  refine Wlp.mapM_done (K := fun done
    (resolved : List (ProjectionEntity × KgEntity)) _ =>
      resolved.map (·.1) = done) rfl ?_
  rintro done e _ resolved g₁ rfl
  unfold applyEntity
  refine wlp_bind.mpr fun row _ _ => wlp_bind.mpr fun _ _ _ => ?_
  refine wlp_bind.mpr fun _ _ _ => wlp_pure.mpr ?_
  rw [List.map_append, List.map_singleton]

theorem applyProjection_applied (h : g.Valid env)
    (hitem : g.HasItem item email) (hclosed : p.Closed env.texts) :
    Wlp (applyProjection env item.ownerUserId p email runId item)
      (fun r g' => Applied env item runId p r.1 r.2 g') g := by
  have hemail : g.Has item.ownerUserId email.id := by
    obtain ⟨row, hrow, hid⟩ := Option.map_eq_some_iff.mp hitem.1
    exact hid ▸ h.has_row hrow
  unfold applyProjection
  refine wlp_bind.mpr (((applyEntities_wp h).wlp.and
    applyEntities_resolves).mono ?_)
  rintro resolved g₁ ⟨⟨h₁, hrows⟩, hresolves⟩
  refine wlp_bind.mpr ((applyEdges_applied (h₁.valid h)
    ⟨h₁.has hemail, fun r hr => (hrows r hr).2⟩ (hitem.later h h₁)
    hresolves hclosed).mono ?_)
  exact fun added g₂ happlied => wlp_pure.mpr happlied

end Applying

-- ==================================================================== runs

section Runs

variable {env : GraphEnv} {p : GraphProjection}

theorem Built.plain (h : Built env.rt env.texts p) : p.Plain := by
  induction h with
  | artifacts h => exact (buildProjection_grown _ h).plain
  | anchors h => exact (buildAnchor_grown _ h).plain
  | llm h => exact llmEntities_plain _ h
  | merge hbase hextra ihb ihe => exact merge_plain ihb ihe

/-- What a run projects is built so. -/
theorem runProjection_built {src : Sources} {sessionId : Uuid}
    {reply : Option (List LlmExtractedEntity)} :
    Returns (runProjection env src sessionId reply)
      (Built env.rt env.texts) := by
  unfold runProjection
  refine Returns.bind (S := fun _ => True) (fun _ _ => trivial) ?_
  intro artifacts _
  refine Returns.bind (S := Built env.rt env.texts)
    (fun _ h => .artifacts h) fun projection hp => ?_
  refine Returns.bind (S := Built env.rt env.texts)
    (fun _ h => .anchors h) fun anchor ha => ?_
  unfold llmEnrichProjection
  split
  · split
    · exact returns_ok (.merge hp ha)
    · refine Returns.bind
        (S := fun entities => Built env.rt env.texts ⟨entities, []⟩)
        (fun _ h => .llm h) fun entities he => ?_
      exact returns_ok (.merge (.merge hp ha) he)
  · exact returns_ok (.merge hp ha)

/-- What extraction and merging build is closed. Applied to a graph that
has the item, a projection of theirs has each edge drawn and counted but
those of attachments the item does not have; unless another type shares
the key of an attachment, applying it does return. `index_run` applies
such a projection. -/
theorem projections_closed :
    (∀ p, Built env.rt env.texts p → p.Closed env.texts)
      ∧ (∀ (g : Graph) (item : IngestionItem) (email : KgEntity)
          (runId : Uuid) (p : GraphProjection),
        g.Valid env → g.HasItem item email → Built env.rt env.texts p →
          Wlp (applyProjection env item.ownerUserId p email runId item)
            (fun r g' => Applied env item runId p r.1 r.2 g') g
          ∧ (Unambiguous env g item p →
            Wp (applyProjection env item.ownerUserId p email runId item)
              (fun _ _ => True) g))
      ∧ ∀ (g : Graph) (src : Sources) (runId : Uuid)
          (reply : Option (List LlmExtractedEntity)),
        g.Valid env →
          Wlp (indexRun env src runId reply) (fun r g' =>
            ∀ rid iid entities edges, r.1 = .run rid iid entities edges →
              ∃ run item p, runTarget src runId = .ok (run, item)
                ∧ runProjection env src run.sessionId reply = .ok p
                ∧ Built env.rt env.texts p
                ∧ Applied env item run.id p r.2 edges g') g := by
  refine ⟨fun p h => h.closed, ?_, ?_⟩
  · intro g item email runId p h hitem hbuilt
    refine ⟨applyProjection_applied h hitem hbuilt.closed, fun halone => ?_⟩
    obtain ⟨row, hrow, hid⟩ := Option.map_eq_some_iff.mp hitem.1
    exact applyProjection_wp h (hid ▸ h.has_row hrow) hbuilt.plain halone
  · intro g src runId reply h
    unfold indexRun
    cases htarget : runTarget src runId with
    | error reason =>
        refine wlp_pure.mpr ?_
        rintro rid iid entities edges ⟨⟩
    | ok target =>
        obtain ⟨run, item⟩ := target
        refine (indexRunOf_returns h).mono ?_
        rintro r g' ⟨p, row, g₁, entities, edges, hi, happlied, hresult⟩
          rid iid entities' edges' hr
        obtain ⟨-, -, -, rfl⟩ : _ ∧ _ ∧ entities = entities'
            ∧ edges = edges' := by
          simpa using hresult.symm.trans hr
        have hbuilt := runProjection_built p hi.projected
        have hitem : g₁.HasItem item row := by
          obtain ⟨parent, email, ga, gb, -, hindexed⟩ := hi.indexed
          exact ⟨congrArg (Option.map (·.id)) hi.found,
            fun att hatt => hindexed.attachedRow h hatt⟩
        exact ⟨run, item, p, rfl, hi.projected, hbuilt,
          applyProjection_applied ((hi.before h).valid h) hitem
            hbuilt.closed _ _ happlied⟩

end Runs

-- =============================================================== scenarios

section Scenarios

/-- A message with one attachment, and what two files were read as. -/
def Sources.twoFiles : Sources :=
  { Sources.empty with
    items := ⟨[{ IngestionItem.sample 1 "u1" none none with
      attachments := [⟨5, "lease.txt", none, none⟩] }], by decide⟩
    runs := ⟨[sampleRun 1], by decide⟩
    jobs := ⟨[sampleJob 1], by decide⟩
    artifacts := [sampleAnalysis 1 "analysis/extracted",
      sampleAnalysis 1 "extracted_data/lease.txt",
      sampleAnalysis 1 "extracted_data/note.txt"] }

/-- The edge from `note.txt` is the one of five that is left out. -/
theorem two_files_projected :
    ∃ r g' run item p,
      indexRun (.sample false) .twoFiles 1 none .empty = .ok (r, g')
        ∧ r.1 = .run 1 1 3 4
        ∧ runTarget .twoFiles 1 = .ok (run, item)
        ∧ p.edges.length = 5 ∧ p.Closed (GraphEnv.sample false).texts
        ∧ Applied (.sample false) item run.id p r.2 4 g' := by
  have hcall : (indexRun (.sample false) .twoFiles 1 none .empty).map
      (·.1.1) = .ok (.run 1 1 3 4) := by decide +kernel
  have hsession : (runTarget .twoFiles 1).map (·.1.sessionId) = .ok 1 := by
    decide +kernel
  have hedges : (runProjection (.sample false) .twoFiles 1 none).map
      (·.edges.length) = .ok 5 := by decide +kernel
  cases hrun : indexRun (.sample false) .twoFiles 1 none .empty with
  | error e =>
      rw [hrun] at hcall
      cases hcall
  | ok result =>
      obtain ⟨r, g'⟩ := result
      rw [hrun] at hcall
      injection hcall with hresult
      have hall := @projections_closed (.sample false)
      obtain ⟨run, item, p, htarget, hp, hbuilt, happlied⟩ :=
        hall.2.2 _ _ _ _ empty_valid r g' hrun _ _ _ _ hresult
      rw [htarget] at hsession
      injection hsession with hsession
      have hsession : run.sessionId = 1 := hsession
      rw [hsession] at hp
      rw [hp] at hedges
      injection hedges with hedges
      exact ⟨r, g', run, item, p, rfl, hresult, htarget, hedges,
        hall.1 p hbuilt, happlied⟩

end Scenarios

end LegalBot.Memory
