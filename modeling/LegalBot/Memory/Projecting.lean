/-
What `index_run` writes once the item of the run is indexed: the
projected entities, resolved one after the other, and the projected
edges.

# Edges

A projected edge has the item's entity, an attachment's or a resolved
one as its source. Only the lookup of an attachment may raise; it does
not know the type it looks for (`edgeSource_wlp`).
-/
import LegalBot.Memory.Projected
import LegalBot.Memory.Resolving

namespace LegalBot.Memory

open Programs

-- ================================================================= lookups

section Lookups

variable {env : GraphEnv} {g g' : Graph} {k : EntityKey} {e : KgEntity}

/-- A row of another type has the owner and the key. -/
def Graph.Shared (g : Graph) (k : EntityKey) : Prop :=
  ∃ e ∈ g.entities, e.ownerUserId = k.ownerUserId
    ∧ e.canonicalKey = k.canonicalKey ∧ e.type ≠ k.type

instance (g : Graph) (k : EntityKey) : Decidable (g.Shared k) := by
  unfold Graph.Shared
  infer_instance

theorem lookup_ok (h : g.Valid env) (hrow : g.row k = some e)
    (hshared : ¬ g.Shared k) :
    scalarOneOrNone (g.withOwnerKey k.ownerUserId k.canonicalKey)
      = .ok (some e) := by
  have hsame : g.withOwnerKey k.ownerUserId k.canonicalKey
      = g.withKey k := by
    refine List.filter_congr fun x hx => ?_
    by_cases htype : x.type = k.type
    · cases k
      simp only [KgEntity.key, EntityKey.mk.injEq, decide_eq_decide]
      exact ⟨fun hk => ⟨hk.1, htype, hk.2⟩, fun hk => ⟨hk.1, hk.2.2⟩⟩
    · have hnot : ¬ (x.ownerUserId = k.ownerUserId
          ∧ x.canonicalKey = k.canonicalKey) := fun hk =>
        hshared ⟨x, hx, hk.1, hk.2, htype⟩
      have hkey : x.key ≠ k := fun hk => htype (hk ▸ rfl)
      rw [decide_eq_false hnot, decide_eq_false hkey]
  rw [hsame, h.withKey, hrow]
  rfl

theorem lookup_error (h : g.Valid env) (hrow : g.row k = some e)
    (hshared : g.Shared k) :
    scalarOneOrNone (g.withOwnerKey k.ownerUserId k.canonicalKey)
      = .error .multipleResultsFound := by
  obtain ⟨x, hx, howner, hkey, htype⟩ := hshared
  obtain ⟨he, rfl⟩ := h.row_iff.mp hrow
  have hx' : x ∈ g.withOwnerKey e.key.ownerUserId e.key.canonicalKey :=
    List.mem_filter.mpr ⟨hx, decide_eq_true ⟨howner, hkey⟩⟩
  have he' : e ∈ g.withOwnerKey e.key.ownerUserId e.key.canonicalKey :=
    List.mem_filter.mpr ⟨he, decide_eq_true ⟨rfl, rfl⟩⟩
  unfold scalarOneOrNone
  split
  · rename_i hnil
    rw [hnil] at hx'
    cases hx'
  · rename_i a hone
    rw [hone, List.mem_singleton] at hx' he'
    exact absurd (congrArg KgEntity.type (hx'.trans he'.symm)) htype
  · rfl

/-- Nothing is there under the key, or one row. -/
theorem lookup_none (h : g.row k = none) (hshared : ¬ g.Shared k) :
    scalarOneOrNone (g.withOwnerKey k.ownerUserId k.canonicalKey)
      = .ok none := by
  have hnil : g.withOwnerKey k.ownerUserId k.canonicalKey = [] := by
    refine List.filter_eq_nil_iff.mpr fun x hx hcond => ?_
    obtain ⟨howner, hkey⟩ := of_decide_eq_true hcond
    by_cases htype : x.type = k.type
    · refine Graph.row_none.mp h x hx ?_
      cases k
      simp_all only [KgEntity.key]
    · exact hshared ⟨x, hx, howner, hkey, htype⟩
  rw [hnil]
  rfl

end Lookups

-- =========================================================== reserved keys

/-- The key of an item or of an attachment. -/
def EntityKey.Reserved (k : EntityKey) : Prop :=
  (k.type = .email ∧ ∃ id, k.canonicalKey = ingestionItemCanonicalKey id)
    ∨ (k.type = .attachment
      ∧ ∃ id, k.canonicalKey = ingestionAttachmentCanonicalKey id)

/-- A write of such a key is of its type. -/
def TypedWrite : GraphWrite → Prop
  | .entity k _ _ => k.Reserved ∨ Unreserved k.canonicalKey
  | _ => True

section ReservedKeys

variable {env : GraphEnv} {g g' : Graph} {k k' : EntityKey}
  {owner : String} {projection : GraphProjection}

theorem item_ne_attachment {id id' : Uuid} :
    ingestionItemCanonicalKey id ≠ ingestionAttachmentCanonicalKey id' := by
  intro h
  -- the first characters to differ
  have hchar := congrArg (fun s => s.toList[10]?) h
  unfold ingestionItemCanonicalKey ingestionAttachmentCanonicalKey at hchar
  rw [String.toList_append, String.toList_append,
    List.getElem?_append_left (by simp),
    List.getElem?_append_left (by simp)] at hchar
  have hitem : "ingestion_item:".toList[10]? = some 'i' := by simp
  have hatt : "ingestion_attachment:".toList[10]? = some 'a' := by simp
  rw [hitem, hatt] at hchar
  cases hchar

/-- Such a key tells its type. -/
theorem EntityKey.Reserved.type_eq (h : k.Reserved) (h' : k'.Reserved)
    (hkey : k.canonicalKey = k'.canonicalKey) : k.type = k'.type := by
  rcases h with ⟨htype, id, hid⟩ | ⟨htype, id, hid⟩ <;>
    rcases h' with ⟨htype', id', hid'⟩ | ⟨htype', id', hid'⟩
  · rw [htype, htype']
  · exact absurd (hid.symm.trans (hkey.trans hid')) item_ne_attachment
  · exact absurd (hid'.symm.trans (hkey.symm.trans hid))
      item_ne_attachment
  · rw [htype, htype']

theorem EntityKey.Reserved.reserved (h : k.Reserved) :
    ¬ Unreserved k.canonicalKey := by
  rcases h with ⟨-, id, hid⟩ | ⟨-, id, hid⟩
  · rw [hid]
    exact reserved_item
  · rw [hid]
    exact reserved_attachment

/-- No row of another type comes under such a key, and none goes. -/
theorem Writes.shared_iff (h : Writes env TypedWrite g g')
    (hk : k.Reserved) : g'.Shared k ↔ g.Shared k := by
  constructor
  · refine h.invariant (I := fun g' => g'.Shared k → g.Shared k) id ?_
    rintro g' w hI - hw ⟨e, he, howner, hkey, htype⟩
    rcases mem_entities_apply he with hold | ⟨name, attrs, rfl⟩
    · obtain ⟨e₀, he₀, -, hsame⟩ := hold
      exact hI ⟨e₀, he₀,
        (congrArg EntityKey.ownerUserId hsame).trans howner,
        (congrArg EntityKey.canonicalKey hsame).trans hkey,
        fun ht => htype ((congrArg EntityKey.type hsame).symm.trans ht)⟩
    · rcases hw with hreserved | hunreserved
      · exact absurd (hreserved.type_eq hk hkey) htype
      · exact absurd (hkey ▸ hunreserved) hk.reserved
  · rintro ⟨e, he, howner, hkey, htype⟩
    obtain ⟨e', he', -, hsame⟩ := h.keeps he
    exact ⟨e', he',
      (congrArg EntityKey.ownerUserId hsame).trans howner,
      (congrArg EntityKey.canonicalKey hsame).trans hkey,
      fun ht => htype ((congrArg EntityKey.type hsame).symm.trans ht)⟩

theorem plain_typed : ∀ w, PlainWrite env owner w → TypedWrite w := by
  intro w hw
  cases w with
  | entity k name attrs =>
      rcases hw.2 with ⟨-, email, hkey⟩ | hattachment
      · exact Or.inr (hkey ▸ personKey_unreserved)
      · exact Or.inl (Or.inr hattachment)
  | aliasRow row => trivial
  | edge row => trivial
  | mention row => trivial

theorem item_typed : ∀ w, ItemWrite env owner w → TypedWrite w := by
  rintro w (hw | hw)
  · exact plain_typed w hw
  · cases w with
    | entity k name attrs => exact Or.inl (Or.inl hw.2)
    | aliasRow row => trivial
    | edge row => trivial
    | mention row => trivial

end ReservedKeys


-- ================================================================ applying

/-- What applying a projection writes. -/
def RunWrite (owner : String) (projection : GraphProjection) :
    GraphWrite → Prop
  | .entity k _ _ => ∃ p ∈ projection.entities, k = p.entityKey owner
  | .aliasRow _ => True
  | .edge e => e.ownerUserId = owner
      ∧ ∃ pe ∈ projection.edges, e.relation = pe.relation
  | .mention m => m.ownerUserId = owner

section Applying

variable {env : GraphEnv} {g : Graph} {owner : String}
  {projection : GraphProjection} {runId itemId : Uuid}
  {item : IngestionItem} {email : KgEntity} {p : ProjectionEntity}
  {resolved : List (ProjectionEntity × KgEntity)} {edge : ProjectionEdge}

theorem isAlias_run : ∀ w, IsAlias w → RunWrite owner projection w := by
  rintro w ⟨row, rfl⟩
  trivial

/-- One projected entity. -/
theorem applyEntity_wp (h : g.Valid env)
    (hp : p ∈ projection.entities) :
    Wp (applyEntity env owner runId itemId p) (fun r g' =>
      Writes env (RunWrite owner projection) g g' ∧ r.1 = p
        ∧ ∃ g₁, ResolvesTo env g (p.entityKey owner) p.canonicalName r.2
            g₁ ∧ g'.entities = g₁.entities) g := by
  let P := RunWrite owner projection
  unfold applyEntity
  refine wp_bind.mpr ((resolveEntity_wp P h ⟨p, hp, rfl⟩
    isAlias_run).mono ?_)
  rintro row g₁ ⟨h₁, hresolves⟩
  obtain ⟨e, he, hid, howner, -⟩ := hresolves.found
  have hhas : g₁.Has owner row.id := ⟨e, he, hid, howner⟩
  refine wp_bind.mpr ((addMention_writes env P hhas
    (by exact rfl)).mono ?_)
  rintro _ g₂ ⟨h₂, hsame₂⟩
  refine wp_bind.mpr ((addMention_writes env P (h₂.has hhas)
    (by exact rfl)).mono ?_)
  rintro _ g₃ ⟨h₃, hsame₃⟩
  exact wp_pure.mpr ⟨(h₁.trans h₂).trans h₃, rfl, g₁, hresolves,
    hsame₃.trans hsame₂⟩

/-- The resolved entity of a key. -/
theorem lookupEntity_mem {type : EntityType} {key : String}
    {e : KgEntity} (h : lookupEntity resolved type key = some e) :
    ∃ r ∈ resolved, r.2 = e := by
  obtain ⟨r, hfind, rfl⟩ := Option.map_eq_some_iff.mp h
  exact ⟨r, List.mem_reverse.mp (List.mem_of_find?_eq_some hfind), rfl⟩

theorem scalarOneOrNone_ok {α : Type} {l : List α} {o : Option α}
    (h : scalarOneOrNone l = .ok o) : l = o.toList := by
  unfold scalarOneOrNone at h
  split at h
  · injection h with h
    rw [← h]
    rfl
  · injection h with h
    rw [← h]
    rfl
  · cases h

/-- The attachment a projected edge starts from. -/
def sourceAttachment (env : GraphEnv) (item : IngestionItem)
    (edge : ProjectionEdge) : Option IngestionAttachment :=
  match edge.srcType, filenameOf edge.srcKey with
  | .attachment, some normalized =>
      item.attachments.find? fun att =>
        normalizeName env.texts att.name = normalized
  | _, _ => none

theorem sourceAttachment_mem {env : GraphEnv} {item : IngestionItem}
    {edge : ProjectionEdge} {att : IngestionAttachment}
    (h : sourceAttachment env item edge = some att) :
    att ∈ item.attachments := by
  unfold sourceAttachment at h
  split at h
  · exact List.mem_of_find?_eq_some h
  · cases h

/-- The entities an edge may start from. -/
def Sourced (g : Graph) (owner : String) (email : KgEntity)
    (resolved : List (ProjectionEntity × KgEntity)) : Prop :=
  g.Has owner email.id ∧ ∀ r ∈ resolved, g.Has owner r.2.id

theorem Sourced.later {g' : Graph} {P : GraphWrite → Prop}
    (hs : Sourced g owner email resolved) (h : Writes env P g g') :
    Sourced g' owner email resolved :=
  ⟨h.has hs.1, fun r hr => h.has (hs.2 r hr)⟩

theorem Sourced.lookup (hs : Sourced g owner email resolved)
    {type : EntityType} {key : String} :
    ∀ e, lookupEntity resolved type key = some e → g.Has owner e.id := by
  intro e hfind
  obtain ⟨r, hr, rfl⟩ := lookupEntity_mem hfind
  exact hs.2 r hr

theorem edgeSource_wlp (hs : Sourced g owner email resolved) :
    Wlp (edgeSource env owner item email resolved edge) (fun src g' =>
      g' = g ∧ ∀ e, src = some e → g.Has owner e.id) g := by
  unfold edgeSource
  split
  · refine wlp_pure.mpr ⟨rfl, ?_⟩
    rintro e ⟨⟩
    exact hs.1
  · split
    · unfold resolveAttachmentEntity
      split
      · exact wlp_pure.mpr ⟨rfl, (fun _ h => by cases h)⟩
      · rename_i att _
        refine wlp_bind.mpr (wlp_get.mpr (wlp_liftM.mpr ?_))
        intro o ho
        refine ⟨rfl, ?_⟩
        rintro e rfl
        have hmem : e ∈ g.withOwnerKey owner
            (ingestionAttachmentCanonicalKey att.id) := by
          rw [scalarOneOrNone_ok ho]
          exact List.mem_singleton_self _
        obtain ⟨hmem, hcond⟩ := List.mem_filter.mp hmem
        exact ⟨e, hmem, rfl, (of_decide_eq_true hcond).1⟩
    · exact wlp_pure.mpr ⟨rfl, hs.lookup⟩

/-- Without a row of another type the lookup does not raise. -/
theorem edgeSource_wp (h : g.Valid env)
    (halone : ∀ att, sourceAttachment env item edge = some att →
      ¬ g.Shared (attachmentKey item att)) :
    Wp (edgeSource env item.ownerUserId item email resolved edge)
      (fun _ _ => True) g := by
  unfold edgeSource
  split
  · exact wp_pure.mpr trivial
  · split
    · rename_i normalized htype hname
      unfold resolveAttachmentEntity
      split
      · exact wp_pure.mpr trivial
      · rename_i att hfind
        have hsource : sourceAttachment env item edge = some att := by
          rw [sourceAttachment, htype, hname]
          exact hfind
        refine wp_bind.mpr (wp_get.mpr (wp_liftM.mpr ?_))
        cases hrow : g.row (attachmentKey item att) with
        | none => exact ⟨_, lookup_none hrow (halone att hsource), trivial⟩
        | some e =>
            exact ⟨_, lookup_ok h hrow (halone att hsource), trivial⟩
    · exact wp_pure.mpr trivial

/-- With one it does. -/
theorem edgeSource_raises (h : g.Valid env) {att : IngestionAttachment}
    {e : KgEntity} (hsource : sourceAttachment env item edge = some att)
    (hrow : g.row (attachmentKey item att) = some e)
    (hshared : g.Shared (attachmentKey item att)) :
    Wlp (edgeSource env item.ownerUserId item email resolved edge)
      (fun _ _ => False) g := by
  unfold sourceAttachment at hsource
  split at hsource
  · rename_i normalized htype hname
    unfold edgeSource
    rw [if_neg (by rw [htype]; simp), htype, hname]
    unfold resolveAttachmentEntity
    simp only [hsource]
    refine wlp_bind.mpr (wlp_get.mpr (wlp_liftM.mpr fun o ho => ?_))
    cases (lookup_error h hrow hshared).symm.trans ho
  · cases hsource

theorem addProjectedEdge_wp (h : g.Valid env)
    (hedge : edge ∈ projection.edges) {src dst : Option KgEntity}
    (hsrc : ∀ e, src = some e → g.Has owner e.id)
    (hdst : ∀ e, dst = some e → g.Has owner e.id) :
    Wp (addProjectedEdge env owner runId edge src dst) (fun _ g' =>
      Writes env (RunWrite owner projection) g g'
        ∧ g'.entities = g.entities) g := by
  unfold addProjectedEdge
  split
  · refine wp_bind.mpr ((addEdge_wp h).mono ?_)
    rintro _ g' rfl
    exact wp_pure.mpr ⟨.one ⟨hsrc _ rfl, hdst _ rfl⟩
      ⟨rfl, edge, hedge, rfl⟩, entities_apply (by simp)⟩
  · exact wp_pure.mpr ⟨.refl, rfl⟩

theorem applyEdge_wlp (h : g.Valid env)
    (hs : Sourced g owner email resolved)
    (hedge : edge ∈ projection.edges) :
    Wlp (applyEdge env owner runId item email resolved edge) (fun _ g' =>
      Writes env (RunWrite owner projection) g g'
        ∧ g'.entities = g.entities) g := by
  unfold applyEdge
  refine wlp_bind.mpr ((edgeSource_wlp hs).mono ?_)
  rintro src g₁ ⟨rfl, hsrc⟩
  exact (addProjectedEdge_wp h hedge hsrc hs.lookup).wlp

/-- The loop over the entities. -/
theorem applyEntities_wp (h : g.Valid env) :
    Wp (projection.entities.mapM (applyEntity env owner runId itemId))
      (fun (rs : List (ProjectionEntity × KgEntity)) g' =>
        Writes env (RunWrite owner projection) g g'
          ∧ ∀ r ∈ rs, r.2.ownerUserId = owner ∧ g'.Has owner r.2.id) g := by
  refine Wp.mapM (J := fun (rs : List (ProjectionEntity × KgEntity)) g' =>
    Writes env (RunWrite owner projection) g g'
      ∧ ∀ r ∈ rs, r.2.ownerUserId = owner ∧ g'.Has owner r.2.id)
    ⟨.refl, (fun _ h => by cases h)⟩ ?_
  rintro p hp rs g₁ ⟨h₁, hrs⟩
  refine (applyEntity_wp (h₁.valid h) hp).mono ?_
  rintro r g₂ ⟨h₂, -, g₃, hresolves, hsame⟩
  refine ⟨h₁.trans h₂, fun r' hr' => ?_⟩
  rcases List.mem_append.mp hr' with hr' | hr'
  · exact (hrs r' hr').imp_right h₂.has
  · rw [List.mem_singleton.mp hr']
    obtain ⟨e, he, hid, howner, -⟩ := hresolves.found
    exact ⟨hresolves.owner, e, hsame ▸ he, hid, howner⟩

theorem applyEdges_wlp (h : g.Valid env)
    (hs : Sourced g owner email resolved) :
    Wlp (projection.edges.mapM
      (applyEdge env owner runId item email resolved)) (fun _ g' =>
        Writes env (RunWrite owner projection) g g'
          ∧ g'.entities = g.entities) g := by
  refine Wlp.mapM (J := fun _ g' =>
    Writes env (RunWrite owner projection) g g'
      ∧ g'.entities = g.entities) ⟨.refl, rfl⟩ ?_
  rintro edge hedge _ g₁ ⟨h₁, hsame⟩
  refine (applyEdge_wlp (h₁.valid h) (hs.later h₁) hedge).mono ?_
  rintro _ g₂ ⟨h₂, hsame'⟩
  exact ⟨h₁.trans h₂, hsame'.trans hsame⟩

theorem applyProjection_wlp (h : g.Valid env)
    (hemail : g.Has item.ownerUserId email.id) :
    Wlp (applyProjection env item.ownerUserId projection email runId item)
      (fun r g' =>
        Writes env (RunWrite item.ownerUserId projection) g g'
          ∧ ∀ p ∈ r.1, p.2.ownerUserId = item.ownerUserId) g := by
  unfold applyProjection
  refine wlp_bind.mpr ((applyEntities_wp h).wlp.mono ?_)
  rintro rs g₁ ⟨h₁, hrs⟩
  refine wlp_bind.mpr ((applyEdges_wlp (h₁.valid h)
    ⟨h₁.has hemail, fun r hr => (hrs r hr).2⟩).mono ?_)
  rintro _ g₂ ⟨h₂, -⟩
  exact wlp_pure.mpr ⟨h₁.trans h₂, fun r hr => (hrs r hr).1⟩

/-- No edge starts from an attachment whose key a row of another type
has. -/
def Unambiguous (env : GraphEnv) (g : Graph) (item : IngestionItem)
    (projection : GraphProjection) : Prop :=
  ∀ edge ∈ projection.edges, ∀ att,
    sourceAttachment env item edge = some att →
      ¬ g.Shared (attachmentKey item att)

theorem applyEdge_wp (h : g.Valid env)
    (hs : Sourced g item.ownerUserId email resolved)
    (hedge : edge ∈ projection.edges)
    (halone : Unambiguous env g item projection) :
    Wp (applyEdge env item.ownerUserId runId item email resolved edge)
      (fun _ g' => Writes env (RunWrite item.ownerUserId projection) g g'
        ∧ g'.entities = g.entities) g := by
  unfold applyEdge
  refine wp_bind.mpr (((edgeSource_wp h (halone edge hedge)).of_wlp
    (edgeSource_wlp hs)).mono ?_)
  rintro src g₁ ⟨-, rfl, hsrc⟩
  exact addProjectedEdge_wp h hedge hsrc hs.lookup

theorem applyEdge_raises (h : g.Valid env) {att : IngestionAttachment}
    {e : KgEntity} (hsource : sourceAttachment env item edge = some att)
    (hrow : g.row (attachmentKey item att) = some e)
    (hshared : g.Shared (attachmentKey item att)) :
    Wlp (applyEdge env item.ownerUserId runId item email resolved edge)
      (fun _ _ => False) g :=
  wlp_bind.mpr ((edgeSource_raises h hsource hrow hshared).mono
    (fun _ _ h => by cases h))

theorem applyEdges_wp (h : g.Valid env)
    (hs : Sourced g item.ownerUserId email resolved)
    (halone : Unambiguous env g item projection) :
    Wp (projection.edges.mapM
      (applyEdge env item.ownerUserId runId item email resolved))
      (fun _ g' => Writes env (RunWrite item.ownerUserId projection) g g')
      g := by
  refine (Wp.mapM (J := fun _ g' =>
    Writes env (RunWrite item.ownerUserId projection) g g'
      ∧ g'.entities = g.entities) ⟨.refl, rfl⟩ ?_).mono
    fun _ _ hdone => hdone.1
  rintro edge hedge _ g₁ ⟨h₁, hsame⟩
  have halone₁ : Unambiguous env g₁ item projection := by
    unfold Unambiguous Graph.Shared
    rw [hsame]
    exact halone
  refine (applyEdge_wp (h₁.valid h) (hs.later h₁) hedge halone₁).mono ?_
  rintro _ g₂ ⟨h₂, hsame'⟩
  exact ⟨h₁.trans h₂, hsame'.trans hsame⟩

theorem applyEdges_raises (h : g.Valid env)
    (hs : Sourced g item.ownerUserId email resolved)
    (hedge : edge ∈ projection.edges) {att : IngestionAttachment}
    {e : KgEntity} (hsource : sourceAttachment env item edge = some att)
    (hrow : g.row (attachmentKey item att) = some e)
    (hshared : g.Shared (attachmentKey item att)) :
    Wlp (projection.edges.mapM
      (applyEdge env item.ownerUserId runId item email resolved))
      (fun _ _ => False) g := by
  refine Wlp.mapM_raises (I := fun g' =>
    Writes env (RunWrite item.ownerUserId projection) g g'
      ∧ g'.entities = g.entities) hedge ⟨.refl, rfl⟩ ?_ ?_
  · rintro edge hedge g₁ ⟨h₁, hsame⟩
    refine (applyEdge_wlp (h₁.valid h) (hs.later h₁) hedge).mono ?_
    rintro _ g₂ ⟨h₂, hsame'⟩
    exact ⟨h₁.trans h₂, hsame'.trans hsame⟩
  · rintro g₁ ⟨h₁, hsame⟩
    refine applyEdge_raises (h₁.valid h) hsource (e := e) ?_ ?_
    · unfold Graph.row
      rw [hsame]
      exact hrow
    · unfold Graph.Shared
      rw [hsame]
      exact hshared

theorem run_typed (hp : projection.Plain) :
    ∀ w, RunWrite owner projection w → TypedWrite w := by
  intro w hw
  cases w with
  | entity k name attrs =>
      obtain ⟨p, hmem, rfl⟩ := hw
      exact Or.inr (hp.keys p hmem)
  | aliasRow row => trivial
  | edge row => trivial
  | mention row => trivial

theorem attachmentKey_reserved {att : IngestionAttachment} :
    (attachmentKey item att).Reserved := Or.inr ⟨rfl, att.id, rfl⟩

theorem emailKey_reserved : item.emailKey.Reserved :=
  Or.inl ⟨rfl, item.id, rfl⟩

/-- Typed writes neither make an edge ambiguous nor the other way. -/
theorem Writes.unambiguous_iff {g' : Graph}
    (h : Writes env TypedWrite g g') :
    Unambiguous env g' item projection
      ↔ Unambiguous env g item projection := by
  unfold Unambiguous
  simp only [h.shared_iff attachmentKey_reserved]

theorem applyProjection_wp (h : g.Valid env)
    (hemail : g.Has item.ownerUserId email.id) (hp : projection.Plain)
    (halone : Unambiguous env g item projection) :
    Wp (applyProjection env item.ownerUserId projection email runId item)
      (fun _ _ => True) g := by
  unfold applyProjection
  refine wp_bind.mpr ((applyEntities_wp h).mono ?_)
  rintro rs g₁ ⟨h₁, hrs⟩
  have halone₁ := (h₁.mono (run_typed hp)).unambiguous_iff.mpr halone
  refine wp_bind.mpr ((applyEdges_wp (h₁.valid h)
    ⟨h₁.has hemail, fun r hr => (hrs r hr).2⟩ halone₁).mono ?_)
  exact fun _ _ _ => wp_pure.mpr trivial

theorem applyProjection_raises (h : g.Valid env)
    (hemail : g.Has item.ownerUserId email.id)
    (hrows : ∀ att ∈ item.attachments,
      ∃ e, g.row (attachmentKey item att) = some e)
    (hp : projection.Plain) (hnot : ¬ Unambiguous env g item projection) :
    Wlp (applyProjection env item.ownerUserId projection email runId item)
      (fun _ _ => False) g := by
  unfold applyProjection
  refine wlp_bind.mpr ((applyEntities_wp h).wlp.mono ?_)
  rintro rs g₁ ⟨h₁, hrs⟩
  have hnot₁ := mt (h₁.mono (run_typed hp)).unambiguous_iff.mp hnot
  unfold Unambiguous at hnot₁
  push Not at hnot₁
  obtain ⟨edge, hedge, att, hsource, hshared⟩ := hnot₁
  obtain ⟨e, hrow⟩ := hrows att (sourceAttachment_mem hsource)
  obtain ⟨e', hrow', -⟩ := h₁.row h hrow
  refine wlp_bind.mpr ((applyEdges_raises (h₁.valid h)
    ⟨h₁.has hemail, fun r hr => (hrs r hr).2⟩ hedge hsource hrow'
    hshared).mono (fun _ _ h => by cases h))

end Applying

-- ==================================================================== runs

section Runs

variable {env : GraphEnv} {g : Graph} {src : Sources} {run : Run}
  {item : IngestionItem} {reply : Option (List LlmExtractedEntity)}

/-- What a call for a run that returns has done: `item` indexes the item,
`g₁` is what that leaves, and `row` is the entity it then looks up. -/
structure RunIndexed (env : GraphEnv) (src : Sources) (run : Run)
    (item : IngestionItem) (reply : Option (List LlmExtractedEntity))
    (projection : GraphProjection) (row : KgEntity) (g g₁ g' : Graph)
    (resolved : List (ProjectionEntity × KgEntity)) : Prop where
  called : ∃ r, indexItem env src item g = .ok (r, g₁)
  indexed : ∃ parent email ga gb, parentItem src item = .ok parent
    ∧ Indexed env item parent g g₁ email ga gb
  found : g₁.row item.emailKey = some row
  alone : ¬ g₁.Shared item.emailKey
  projected : runProjection env src run.sessionId reply = .ok projection
  applied : ∃ n, applyProjection env item.ownerUserId projection row
    run.id item g₁ = .ok ((resolved, n), g')

/-- What a call returns. -/
theorem indexRunOf_returns (h : g.Valid env) :
    Wlp (indexRunOf env src run item reply) (fun r g' =>
      ∃ projection row g₁ entities edges,
        RunIndexed env src run item reply projection row g g₁ g' r.2
          ∧ applyProjection env item.ownerUserId projection row run.id item
            g₁ = .ok ((r.2, edges), g')
          ∧ r.1 = .run run.id item.id entities edges) g := by
  unfold indexRunOf
  cases hparent : parentItem src item with
  | error err =>
      exact wlp_bind.mpr ((indexItem_error hparent).mono
        (fun _ _ h => by cases h))
  | ok parent =>
      refine wlp_bind.mpr fun r₀ g₁ hcall => ?_
      obtain ⟨email, ga, gb, hindexed, -⟩ :=
        (indexItem_wp h hparent).wlp r₀ g₁ hcall
      have h₁ := (hindexed.writes h).valid h
      obtain ⟨row, hrow, -⟩ := hindexed.indexedRow h
      refine wlp_bind.mpr (wlp_get.mpr (wlp_bind.mpr (wlp_liftM.mpr ?_)))
      intro found hfound
      by_cases hshared : g₁.Shared item.emailKey
      · cases (lookup_error h₁ hrow hshared).symm.trans hfound
      · cases (lookup_ok h₁ hrow hshared).symm.trans hfound
        refine wlp_bind.mpr (wlp_liftM.mpr fun projection hproj => ?_)
        refine wlp_bind.mpr fun r g' happlied => wlp_pure.mpr ?_
        exact ⟨projection, row, g₁, _, r.2, ⟨⟨r₀, hcall⟩,
          ⟨parent, email, ga, gb, hparent, hindexed⟩, hrow, hshared,
          hproj, r.2, happlied⟩, happlied, rfl⟩

theorem indexRunOf_wlp (h : g.Valid env) :
    Wlp (indexRunOf env src run item reply) (fun r g' =>
      ∃ projection row g₁, RunIndexed env src run item reply projection
        row g g₁ g' r.2) g := by
  refine (indexRunOf_returns h).mono ?_
  rintro r g' ⟨projection, row, g₁, -, -, hi, -⟩
  exact ⟨projection, row, g₁, hi⟩

section Whole

variable {projection : GraphProjection} {row : KgEntity} {g₁ g' : Graph}
  {resolved : List (ProjectionEntity × KgEntity)}

theorem RunIndexed.before
    (hi : RunIndexed env src run item reply projection row g g₁ g'
      resolved) (h : g.Valid env) :
    Writes env (ItemWrite env item.ownerUserId) g g₁ := by
  obtain ⟨_, _, _, _, -, hindexed⟩ := hi.indexed
  exact hindexed.writes h

/-- What follows the item is a run of writes too, and resolves to rows
of the owner. -/
theorem RunIndexed.after
    (hi : RunIndexed env src run item reply projection row g g₁ g'
      resolved) (h : g.Valid env) :
    Writes env (RunWrite item.ownerUserId projection) g₁ g'
      ∧ ∀ p ∈ resolved, p.2.ownerUserId = item.ownerUserId := by
  have h₁ := (hi.before h).valid h
  obtain ⟨n, happlied⟩ := hi.applied
  exact applyProjection_wlp h₁ (h₁.has_row hi.found) _ _ happlied

end Whole

/-- What a call for a run needs in order to return. -/
def RunReady (env : GraphEnv) (src : Sources) (g : Graph) (run : Run)
    (item : IngestionItem) (reply : Option (List LlmExtractedEntity)) :
    Prop :=
  ∃ parent projection, parentItem src item = .ok parent
    ∧ ¬ g.Shared item.emailKey
    ∧ runProjection env src run.sessionId reply = .ok projection
    ∧ Unambiguous env g item projection

theorem indexRunOf_wp (h : g.Valid env)
    (hready : RunReady env src g run item reply) :
    Wp (indexRunOf env src run item reply) (fun _ _ => True) g := by
  obtain ⟨parent, projection, hparent, hshared, hproj, halone⟩ := hready
  unfold indexRunOf
  refine wp_bind.mpr ((indexItem_wp h hparent).mono ?_)
  rintro _ g₁ ⟨email, ga, gb, hindexed, -⟩
  have hwrites := hindexed.writes h
  have htyped := hwrites.mono item_typed
  have h₁ := hwrites.valid h
  obtain ⟨row, hrow, -⟩ := hindexed.indexedRow h
  refine wp_bind.mpr (wp_get.mpr (wp_bind.mpr (wp_liftM.mpr ⟨_,
    lookup_ok h₁ hrow (mt (htyped.shared_iff emailKey_reserved).mp
      hshared), ?_⟩)))
  refine wp_bind.mpr (wp_liftM.mpr ⟨projection, hproj, ?_⟩)
  refine wp_bind.mpr ((applyProjection_wp h₁ (h₁.has_row hrow)
    (runProjection_plain projection hproj)
    (htyped.unambiguous_iff.mpr halone)).mono ?_)
  exact fun _ _ _ => wp_pure.mpr trivial

/-- A call that returns had what it needs. -/
theorem RunIndexed.ready {projection : GraphProjection} {row : KgEntity}
    {g₁ g' : Graph} {resolved : List (ProjectionEntity × KgEntity)}
    (hi : RunIndexed env src run item reply projection row g g₁ g'
      resolved) (h : g.Valid env) :
    RunReady env src g run item reply := by
  have hwrites := hi.before h
  have htyped := hwrites.mono item_typed
  have h₁ := hwrites.valid h
  obtain ⟨parent, email, ga, gb, hparent, hindexed⟩ := hi.indexed
  refine ⟨parent, projection, hparent,
    mt (htyped.shared_iff emailKey_reserved).mpr hi.alone,
    hi.projected, ?_⟩
  by_contra hnot
  obtain ⟨n, happlied⟩ := hi.applied
  exact applyProjection_raises h₁ (h₁.has_row hi.found)
    (fun _ hatt => hindexed.attachedRow h hatt)
    (runProjection_plain projection hi.projected)
    (mt htyped.unambiguous_iff.mp hnot) _ _ happlied

end Runs

end LegalBot.Memory
