/-
What `index_ingestion_item` writes.

# The shape of a call

It upserts the entity of the item and mentions it; what follows for
persons and attachments are writes that touch no Email entity and add no
`REPLIES_TO` edge (`PlainWrite`); last comes the parent
(`parentWrites`). `indexItem_wp` says this of every graph that meets the
constraints, for whatever parent the rows give; without a parent lookup
that returns, the call does not return (`indexItem_error`).
-/
import LegalBot.Memory.Writes

namespace LegalBot.Memory

open Programs

/-- A write of an alias. -/
def IsAlias (w : GraphWrite) : Prop := ∃ row, w = .aliasRow row

/-- What indexing an item writes for persons and attachments. -/
def PlainWrite (env : GraphEnv) (owner : String) : GraphWrite → Prop
  | .entity k _ _ => k.ownerUserId = owner
      ∧ ((k.type = .person ∧ ∃ email,
          k.canonicalKey = personCanonicalKey env.texts email)
        ∨ (k.type = .attachment ∧ ∃ id,
          k.canonicalKey = ingestionAttachmentCanonicalKey id))
  | .aliasRow _ => True
  | .edge e => e.ownerUserId = owner ∧ e.relation ≠ .repliesTo
  | .mention m => m.ownerUserId = owner

/-- What indexing an item writes. -/
def ItemWrite (env : GraphEnv) (owner : String) (w : GraphWrite) : Prop :=
  PlainWrite env owner w ∨
    match w with
    | .entity k _ _ => k.ownerUserId = owner ∧ k.type = .email
        ∧ ∃ id, k.canonicalKey = ingestionItemCanonicalKey id
    | .edge e => e.ownerUserId = owner
    | _ => False

/-- The mention of the item itself. -/
def itemMention (item : IngestionItem) (email : KgEntity) : KgMention :=
  { entityId := email.id, ownerUserId := item.ownerUserId
    sourceType := .ingestionItem, sourceId := item.id
    snippet := item.title, confidence := 1 }

/-- The key of the entity of an item's parent. -/
def IngestionItem.parentKey (item parent : IngestionItem) : EntityKey :=
  ⟨item.ownerUserId, .email, ingestionItemCanonicalKey parent.id⟩

/-- The parent's entity, with the attributes it is given. -/
def parentUpsert (env : GraphEnv) (item parent : IngestionItem)
    (g : Graph) : Graph :=
  (GraphWrite.entity (item.parentKey parent) parent.emailName
    parent.stubAttrs).apply env g

/-- What is written for the parent of an item. -/
def parentWrites (env : GraphEnv) (item : IngestionItem)
    (email : KgEntity) (g : Graph) : Option IngestionItem → Graph
  | none => g
  | some parent =>
      let g₁ := parentUpsert env item parent g
      match g₁.row (item.parentKey parent) with
      | none => g₁
      | some row =>
          if row.id = email.id then g₁
          else (GraphWrite.edge
            (itemEdge item email.id row.id .repliesTo [])).apply env g₁

section Upserts

variable {env : GraphEnv} {g : Graph} {k : EntityKey} {name : String}
  {attrs : Attributes} {id : Uuid} {P : GraphWrite → Prop}

/-- Aliases leave the entities. -/
theorem Writes.entities_alias {g' : Graph} (h : Writes env IsAlias g g') :
    g'.entities = g.entities := by
  refine h.invariant (I := fun g' => g'.entities = g.entities) rfl ?_
  rintro g' w hg' _ ⟨row, rfl⟩
  exact (entities_apply (by simp)).trans hg'

theorem Writes.row_alias {g' : Graph} (h : Writes env IsAlias g g') :
    g'.row k = g.row k := by
  unfold Graph.row
  rw [h.entities_alias]

theorem upsertAliasIf_wp (h : g.Valid env)
    (hid : ∃ e ∈ g.entities, e.id = id) :
    Wp (upsertAliasIf env id name) (fun _ g' =>
      Writes env IsAlias g g') g := by
  unfold upsertAliasIf
  split
  · exact wp_pure.mpr .refl
  · refine (upsertAlias_wp h).mono ?_
    rintro _ g' rfl
    exact .one hid ⟨_, rfl⟩

/-- An upsert without an alias. -/
theorem upsertEntity_none_wp (h : g.Valid env) :
    Wp (upsertEntity env k name attrs none) (fun row g' =>
      g' = (GraphWrite.entity k name attrs).apply env g
        ∧ g'.row k = some row) g := by
  unfold upsertEntity
  refine wp_bind.mpr ((upsertRow_wp h).mono fun row g' hrow => ?_)
  exact wp_bind.mpr (wp_pure.mpr (wp_pure.mpr hrow))

/-- An upsert with one. -/
theorem upsertEntity_some_wp (P : GraphWrite → Prop) (h : g.Valid env)
    {aliasName : String}
    (hP : P (.entity k name attrs)) (hA : ∀ w, IsAlias w → P w) :
    Wp (upsertEntity env k name attrs (some aliasName)) (fun row g' =>
      Writes env P g g' ∧ g'.row k = some row) g := by
  unfold upsertEntity
  refine wp_bind.mpr ((upsertRow_wp h).mono ?_)
  rintro row g₁ ⟨rfl, hrow⟩
  obtain ⟨hmem, -⟩ := h.apply.row_iff.mp hrow
  refine wp_bind.mpr (wp_bind.mpr
    ((upsertAliasIf_wp h.apply ⟨row, hmem, rfl⟩).mono ?_))
  intro _ g₂ halias
  refine wp_pure.mpr (wp_pure.mpr ⟨?_, halias.row_alias.trans hrow⟩)
  have hfirst : Writes env P g
      ((GraphWrite.entity k name attrs).apply env g) := .one trivial hP
  exact hfirst.trans (halias.mono hA)

theorem upsertEntity_writes (P : GraphWrite → Prop) (h : g.Valid env)
    (hP : P (.entity k name attrs)) :
    Wp (upsertEntity env k name attrs none) (fun row g' =>
      Writes env P g g' ∧ g'.row k = some row) g := by
  refine (upsertEntity_none_wp h).mono ?_
  rintro row g' ⟨rfl, hrow⟩
  exact ⟨.one trivial hP, hrow⟩

theorem addMention_writes (env : GraphEnv) (P : GraphWrite → Prop)
    {m : KgMention} (hhas : g.Has m.ownerUserId m.entityId)
    (hP : P (.mention m)) :
    Wp (addMention m) (fun _ g' =>
      Writes env P g g' ∧ g'.entities = g.entities) g := by
  refine (addMention_wp env).mono ?_
  rintro _ g' rfl
  exact ⟨.one hhas hP, rfl⟩

theorem addEdge_writes (P : GraphWrite → Prop) (h : g.Valid env)
    {e : KgEdge}
    (hsrc : g.Has e.ownerUserId e.srcId)
    (hdst : g.Has e.ownerUserId e.dstId) (hP : P (.edge e)) :
    Wp (addEdge env e) (fun _ g' => Writes env P g g') g := by
  refine (addEdge_wp h).mono ?_
  rintro _ g' rfl
  exact .one ⟨hsrc, hdst⟩ hP

theorem Graph.Valid.has_row (h : g.Valid env) {row : KgEntity}
    (hrow : g.row k = some row) : g.Has k.ownerUserId row.id := by
  obtain ⟨hmem, rfl⟩ := h.row_iff.mp hrow
  exact ⟨row, hmem, rfl, rfl⟩

theorem isAlias_plain {owner : String} :
    ∀ w, IsAlias w → PlainWrite env owner w := by
  rintro w ⟨row, rfl⟩
  trivial

end Upserts

-- ================================================================= persons

section Persons

variable {env : GraphEnv} {g : Graph} {item : IngestionItem}
  {emailId : Uuid} {src : Sources}

theorem upsertPersonFromAddr_wp (h : g.Valid env) {owner rawAddr : String}
    {sourceId : Uuid} :
    Wp (upsertPersonFromAddr env owner rawAddr sourceId)
      (fun person g' => Writes env (PlainWrite env owner) g g'
        ∧ ∀ p, person = some p → g'.Has owner p.id) g := by
  unfold upsertPersonFromAddr
  cases hparse : parseEmailAddress env.texts rawAddr with
  | mk display email =>
      simp only
      split
      · exact wp_pure.mpr ⟨.refl, (fun _ h => by cases h)⟩
      · refine wp_bind.mpr ((upsertEntity_some_wp (PlainWrite env owner) h
          ⟨rfl, Or.inl ⟨rfl, email, rfl⟩⟩ isAlias_plain).mono ?_)
        rintro person g₁ ⟨hwrites, hrow⟩
        have hhas : g₁.Has owner person.id :=
          (hwrites.valid h).has_row hrow
        refine wp_bind.mpr ((addMention_writes env
          (PlainWrite env owner) hhas (by exact rfl)).mono ?_)
        rintro _ g₂ ⟨hmention, -⟩
        refine wp_pure.mpr ⟨hwrites.trans hmention, ?_⟩
        rintro p ⟨⟩
        exact hmention.has hhas

theorem indexPerson_wp (h : g.Valid env)
    (hemail : g.Has item.ownerUserId emailId) {relation : Relation}
    (hrelation : relation ≠ .repliesTo) {attributes : Attributes}
    {rawAddr : String} :
    Wp (indexPerson env item emailId relation attributes rawAddr)
      (fun _ g' => Writes env (PlainWrite env item.ownerUserId) g g')
      g := by
  unfold indexPerson
  refine wp_bind.mpr ((upsertPersonFromAddr_wp h).mono ?_)
  rintro person g₁ ⟨hwrites, hhas⟩
  cases person with
  | none => exact wp_pure.mpr hwrites
  | some person =>
      exact (addEdge_writes (PlainWrite env item.ownerUserId)
        (hwrites.valid h) (hwrites.has hemail)
        (hhas person rfl) ⟨rfl, hrelation⟩).mono
          fun _ _ hedge => hwrites.trans hedge

/-- A loop of writes of a kind, about an entity that is there. -/
theorem forM_writes {α : Type} {P : GraphWrite → Prop} {xs : List α}
    {f : α → GraphM Unit} {owner : String} {id : Uuid} (h : g.Valid env)
    (hhas : g.Has owner id)
    (hf : ∀ a ∈ xs, ∀ g : Graph, g.Valid env → g.Has owner id →
      Wp (f a) (fun _ g' => Writes env P g g') g) :
    Wp (xs.forM f) (fun _ g' => Writes env P g g') g := by
  refine Wp.forM (I := fun g' => Writes env P g g') .refl ?_
  intro a ha g' hg'
  exact (hf a ha g' (hg'.valid h) (hg'.has hhas)).mono
    fun _ _ hwrites => hg'.trans hwrites

theorem indexPersons_wp (h : g.Valid env)
    (hemail : g.Has item.ownerUserId emailId) :
    Wp (indexPersons env item emailId)
      (fun _ g' => Writes env (PlainWrite env item.ownerUserId) g g')
      g := by
  unfold indexPersons
  cases item.emailMetadata with
  | none => exact wp_pure.mpr .refl
  | some detail =>
      have hloop : ∀ {g : Graph} {attributes : Attributes}
          {addrs : List String}, g.Valid env →
          g.Has item.ownerUserId emailId →
          Wp (addrs.forM (indexPerson env item emailId .sentTo attributes))
            (fun _ g' => Writes env (PlainWrite env item.ownerUserId) g g')
            g := fun h hemail =>
        forM_writes h hemail fun _ _ _ hv hhas =>
          indexPerson_wp hv hhas (by decide)
      have hfrom : Wp (indexSender env item emailId detail.fromAddr)
          (fun _ g' => Writes env (PlainWrite env item.ownerUserId) g g')
          g := by
        unfold indexSender
        split
        · exact wp_pure.mpr .refl
        · exact indexPerson_wp h hemail (by decide)
      refine wp_bind.mpr (hfrom.mono fun _ g₁ h₁ => ?_)
      refine wp_bind.mpr ((hloop (h₁.valid h) (h₁.has hemail)).mono
        fun _ g₂ h₂ => ?_)
      have h₁₂ := h₁.trans h₂
      exact (hloop (h₁₂.valid h) (h₁₂.has hemail)).mono
        fun _ g₃ h₃ => h₁₂.trans h₃

theorem indexAttachment_wp (h : g.Valid env)
    (hemail : g.Has item.ownerUserId emailId) {att : IngestionAttachment} :
    Wp (indexAttachment env item emailId att)
      (fun _ g' => Writes env (PlainWrite env item.ownerUserId) g g'
        ∧ ∃ e, g'.row (attachmentKey item att) = some e) g := by
  let P := PlainWrite env item.ownerUserId
  unfold indexAttachment
  refine wp_bind.mpr ((upsertEntity_writes P h
    ⟨rfl, Or.inr ⟨rfl, att.id, rfl⟩⟩).mono ?_)
  rintro entity g₁ ⟨h₁, hrow⟩
  have hhas : g₁.Has item.ownerUserId entity.id :=
    (h₁.valid h).has_row hrow
  refine wp_bind.mpr ((addMention_writes env P hhas
    (by exact rfl)).mono ?_)
  rintro _ g₂ ⟨h₂, -⟩
  have h₁₂ := h₁.trans h₂
  refine (addEdge_writes P (h₁₂.valid h) (h₂.has hhas) (h₁₂.has hemail)
    ⟨rfl, by simp [itemEdge]⟩).mono fun _ g₃ h₃ => ?_
  obtain ⟨e, hrow', -⟩ := (h₂.trans h₃).row (h₁.valid h) hrow
  exact ⟨h₁₂.trans h₃, e, hrow'⟩

/-- The loop leaves an entity for each attachment. -/
theorem indexAttachments_wp {atts : List IngestionAttachment} :
    ∀ {g : Graph}, g.Valid env → g.Has item.ownerUserId emailId →
      Wp (atts.forM (indexAttachment env item emailId))
        (fun _ g' => Writes env (PlainWrite env item.ownerUserId) g g'
          ∧ ∀ att ∈ atts, ∃ e, g'.row (attachmentKey item att) = some e)
        g := by
  induction atts with
  | nil => exact fun _ _ => wp_pure.mpr ⟨.refl, (fun _ h => by cases h)⟩
  | cons att rest ih =>
      intro g h hemail
      refine wp_bind.mpr ((indexAttachment_wp h hemail).mono ?_)
      rintro _ g₁ ⟨h₁, e, hrow⟩
      refine (ih (h₁.valid h) (h₁.has hemail)).mono ?_
      rintro _ g₂ ⟨h₂, hrest⟩
      refine ⟨h₁.trans h₂, fun a ha => ?_⟩
      rcases List.mem_cons.mp ha with rfl | ha
      · obtain ⟨e', hrow', -⟩ := h₂.row (h₁.valid h) hrow
        exact ⟨e', hrow'⟩
      · exact hrest a ha

-- ================================================================= parents

theorem indexParent_wp (h : g.Valid env) {email : KgEntity}
    {parent : Option IngestionItem}
    (hparent : parentItem src item = .ok parent) :
    Wp (indexParent env src item email.id)
      (fun _ g' => g' = parentWrites env item email g parent) g := by
  unfold indexParent resolveParentEmail
  refine wp_bind.mpr (wp_bind.mpr (wp_liftM.mpr ⟨parent, hparent, ?_⟩))
  cases parent with
  | none => exact wp_pure.mpr (wp_pure.mpr rfl)
  | some parent =>
      refine wp_bind.mpr ((upsertEntity_none_wp h).mono ?_)
      rintro row g₁ ⟨rfl, hrow⟩
      refine wp_pure.mpr ?_
      have hparentRow : (parentUpsert env item parent g).row
          (item.parentKey parent) = some row := hrow
      simp only [parentWrites, hparentRow]
      by_cases hid : row.id = email.id
      · rw [if_neg (not_not.mpr hid), if_pos hid]
        exact wp_pure.mpr rfl
      · rw [if_pos hid, if_neg hid]
        exact addEdge_wp h.apply

-- =================================================================== items

/-- What indexing an item leaves. -/
structure Indexed (env : GraphEnv) (item : IngestionItem)
    (parent : Option IngestionItem) (g g' : Graph) (email : KgEntity)
    (g₁ g₂ : Graph) : Prop where
  upserted : g₁ = (GraphWrite.entity item.emailKey item.emailName
    item.emailAttrs).apply env g
  row : g₁.row item.emailKey = some email
  plain : Writes env (PlainWrite env item.ownerUserId)
    ((GraphWrite.mention (itemMention item email)).apply env g₁) g₂
  attached : ∀ att ∈ item.attachments,
    ∃ e, g₂.row (attachmentKey item att) = some e
  parent : g' = parentWrites env item email g₂ parent

theorem indexItem_wp (h : g.Valid env) {parent : Option IngestionItem}
    (hparent : parentItem src item = .ok parent) :
    Wp (indexItem env src item) (fun r g' => ∃ email g₁ g₂,
      Indexed env item parent g g' email g₁ g₂
        ∧ r = .item item.id email.id) g := by
  unfold indexItem
  refine wp_bind.mpr ((upsertEntity_none_wp h).mono ?_)
  rintro email g₁ ⟨hupserted, hrow⟩
  have h₁ : g₁.Valid env := hupserted ▸ h.apply
  refine wp_bind.mpr ((addMention_wp env).mono ?_)
  rintro _ g₁' hmention
  have h₁' : g₁'.Valid env := hmention ▸ h₁.apply
  have hhas : g₁'.Has item.ownerUserId email.id :=
    hmention ▸ h₁.has_row hrow
  refine wp_bind.mpr ((indexPersons_wp h₁' hhas).mono fun _ g₂ h₂ => ?_)
  refine wp_bind.mpr ((indexAttachments_wp (h₂.valid h₁')
    (h₂.has hhas)).mono ?_)
  rintro _ g₃ ⟨h₃, hattached⟩
  have h₂₃ := h₂.trans h₃
  refine wp_bind.mpr ((indexParent_wp (h₂₃.valid h₁') hparent).mono ?_)
  intro _ g' hg'
  refine wp_pure.mpr ⟨email, g₁, g₃,
    ⟨hupserted, hrow, hmention ▸ h₂₃, hattached, hg'⟩, rfl⟩

/-- Without the parent lookup the call does not return. -/
theorem indexItem_error {e : GraphError}
    (hparent : parentItem src item = .error e) :
    Wlp (indexItem env src item) (fun _ _ => False) g := by
  unfold indexItem indexParent resolveParentEmail
  refine wlp_bind.mpr fun email g₁ _ => wlp_bind.mpr fun _ g₂ _ => ?_
  refine wlp_bind.mpr fun _ g₃ _ => wlp_bind.mpr fun _ g₄ _ => ?_
  refine wlp_bind.mpr (wlp_bind.mpr (wlp_bind.mpr (wlp_liftM.mpr ?_)))
  intro parent hok
  rw [hparent] at hok
  cases hok

/-- The parent's part is made of writes: the stub, and an edge if the
parent is another entity. -/
theorem parentWrites_writes {parent : Option IngestionItem}
    {email : KgEntity} (h : g.Valid env)
    (hemail : g.Has item.ownerUserId email.id) :
    Writes env (ItemWrite env item.ownerUserId) g
      (parentWrites env item email g parent) := by
  cases parent with
  | none => exact .refl
  | some parent =>
      have hstub : Writes env (ItemWrite env item.ownerUserId) g
          (parentUpsert env item parent g) :=
        .one trivial (Or.inr ⟨rfl, rfl, parent.id, rfl⟩)
      unfold parentWrites
      simp only
      split
      · exact hstub
      · rename_i row hrow
        split
        · exact hstub
        · exact hstub.trans (.one
            ⟨hstub.has hemail, (hstub.valid h).has_row hrow⟩
            (Or.inr rfl))

section Whole

variable {parent : Option IngestionItem} {g' g₁ g₂ : Graph}
  {email : KgEntity}

theorem Indexed.first (hi : Indexed env item parent g g' email g₁ g₂) :
    Writes env (ItemWrite env item.ownerUserId) g g₁ :=
  hi.upserted ▸ .one trivial (Or.inr ⟨rfl, rfl, item.id, rfl⟩)

/-- Up to the parent. -/
theorem Indexed.before (hi : Indexed env item parent g g' email g₁ g₂)
    (h : g.Valid env) :
    Writes env (ItemWrite env item.ownerUserId) g₁ g₂ := by
  have hmention : Writes env (ItemWrite env item.ownerUserId) g₁
      ((GraphWrite.mention (itemMention item email)).apply env g₁) :=
    .one ((hi.first.valid h).has_row hi.row) (Or.inl rfl)
  exact hmention.trans (hi.plain.mono fun _ hw => Or.inl hw)

/-- The parent's part. -/
theorem Indexed.last (hi : Indexed env item parent g g' email g₁ g₂)
    (h : g.Valid env) :
    Writes env (ItemWrite env item.ownerUserId) g₂ g' := by
  have h₁ := hi.first.valid h
  exact hi.parent ▸ parentWrites_writes ((hi.before h).valid h₁)
    ((hi.before h).has (h₁.has_row hi.row))

/-- Indexing an item is a run of writes. -/
theorem Indexed.writes (hi : Indexed env item parent g g' email g₁ g₂)
    (h : g.Valid env) :
    Writes env (ItemWrite env item.ownerUserId) g g' :=
  (hi.first.trans (hi.before h)).trans (hi.last h)

/-- It leaves the entity of the item. -/
theorem Indexed.indexedRow
    (hi : Indexed env item parent g g' email g₁ g₂) (h : g.Valid env) :
    ∃ row, g'.row item.emailKey = some row ∧ row.id = email.id := by
  obtain ⟨row, hrow, hid, -⟩ :=
    ((hi.before h).trans (hi.last h)).row (hi.first.valid h) hi.row
  exact ⟨row, hrow, hid⟩

/-- It leaves the entities of the attachments. -/
theorem Indexed.attachedRow
    (hi : Indexed env item parent g g' email g₁ g₂) (h : g.Valid env)
    {att : IngestionAttachment} (hatt : att ∈ item.attachments) :
    ∃ row, g'.row (attachmentKey item att) = some row := by
  obtain ⟨e, hrow⟩ := hi.attached att hatt
  have h₂ := (hi.before h).valid (hi.first.valid h)
  obtain ⟨row, hrow', -⟩ := (hi.last h).row h₂ hrow
  exact ⟨row, hrow'⟩

/-- It adds a mention. -/
theorem Indexed.mentions
    (hi : Indexed env item parent g g' email g₁ g₂) (h : g.Valid env) :
    g.mentions.length < g'.mentions.length := by
  have hbefore := hi.first.mentions.length_le
  have hafter := (hi.plain.mentions.trans (hi.last h).mentions).length_le
  have hadded : ((GraphWrite.mention (itemMention item email)).apply env
      g₁).mentions.length = g₁.mentions.length + 1 :=
    List.length_append
  omega

end Whole

end Persons

end LegalBot.Memory
