/-
How the extraction builds a projection, and what none contains: the key
of an item or an attachment, and a `REPLIES_TO` edge.

# Keys

A projected entity is keyed by a name, a domain, an address, a contract,
a law area, a jurisdiction or an artifact. None of these keys starts as
the keys of items and attachments do (`Unreserved`), whatever type an
entry or the model names.

# The walk

Each function of the extraction extends a projection by calls of `add`
and by edges between entities it has added (`Extends`, `Grown`). The walk
through the functions is made once, for `Grown`; what a projection is, as
`Plain`, then follows from what the two kinds of steps do.
`runProjection_plain` is what indexing a run uses.
-/
import LegalBot.Lib.Programs
import LegalBot.Lib.Ranking
import LegalBot.Memory.Service
import Mathlib.Logic.Relation

namespace LegalBot.Memory

open Programs (Returns returns_ok returns_error)
open Ranking (keepFirst mem_foldl_keepFirst)

-- ==================================================================== keys

/-- The key does not start as that of an item or an attachment. -/
def Unreserved (key : String) : Prop := key.toList.head? ≠ some 'i'

theorem unreserved_append {pre s : String} {c : Char}
    (hpre : pre.toList.head? = some c) (hc : c ≠ 'i') :
    Unreserved (pre ++ s) := by
  unfold Unreserved
  rw [String.toList_append, List.head?_append, hpre]
  intro h
  exact hc (Option.some.inj h)

theorem reserved_append {pre s : String}
    (hpre : pre.toList.head? = some 'i') : ¬ Unreserved (pre ++ s) := by
  intro h
  refine h ?_
  rw [String.toList_append, List.head?_append, hpre]
  rfl

theorem reserved_item {id : Uuid} :
    ¬ Unreserved (ingestionItemCanonicalKey id) :=
  reserved_append (by simp)

theorem reserved_attachment {id : Uuid} :
    ¬ Unreserved (ingestionAttachmentCanonicalKey id) :=
  reserved_append (by simp)

section Keys

variable {rt : Runtime} {tx : Texts}

theorem organizationKey_unreserved {name : String}
    {domain : Option String} :
    Unreserved (organizationCanonicalKey tx name domain) := by
  unfold organizationCanonicalKey
  split
  · split
    · exact unreserved_append (c := 'n') (by simp) (by simp)
    · exact unreserved_append (c := 'd') (by simp) (by simp)
  · exact unreserved_append (c := 'n') (by simp) (by simp)

theorem personKey_unreserved {email : String} :
    Unreserved (personCanonicalKey tx email) :=
  unreserved_append (c := 'e') (by simp) (by simp)

theorem nameKey_unreserved {name : String} :
    Unreserved ("name:" ++ name) :=
  unreserved_append (c := 'n') (by simp) (by simp)

theorem contractKey_unreserved {contractType : String}
    {parties : List String} :
    Unreserved (contractCanonicalKey tx contractType parties) := by
  unfold contractCanonicalKey
  simp only [String.append_assoc]
  exact unreserved_append (c := 'c') (by simp) (by simp)

theorem artifactKey_unreserved {sessionId : Uuid} {key : String} :
    Unreserved (artifactCanonicalKey sessionId key) := by
  unfold artifactCanonicalKey
  simp only [String.append_assoc]
  exact unreserved_append (c := 'a') (by simp) (by simp)

theorem entityKey_unreserved {type : EntityType} {name : String}
    {attrs : Attributes} :
    Returns (entityKey rt tx type name attrs) Unreserved := by
  unfold entityKey
  cases type with
  | organization =>
      simp only
      split
      · exact returns_ok organizationKey_unreserved
      · exact returns_ok organizationKey_unreserved
      · exact returns_error
  | person =>
      simp only
      split
      · exact returns_ok nameKey_unreserved
      · exact returns_ok personKey_unreserved
  | contract =>
      refine Returns.bind (S := fun _ => True) (fun _ _ => trivial) ?_
      intro _ _
      refine Returns.bind (S := fun _ => True) (fun _ _ => trivial) ?_
      exact fun _ _ => returns_ok contractKey_unreserved
  | _ => exact returns_ok nameKey_unreserved

end Keys

-- ================================================================= growing

/-- What an entity is kept under. -/
def ProjectionEntity.bucket (e : ProjectionEntity) : EntityType × String :=
  (e.entityType, e.canonicalKey)

def ProjectionEdge.src (e : ProjectionEdge) : EntityType × String :=
  (e.srcType, e.srcKey)

def ProjectionEdge.dst (e : ProjectionEdge) : EntityType × String :=
  (e.dstType, e.dstKey)

/-- An entity is kept under the type and the key. -/
def GraphProjection.Holds (p : GraphProjection)
    (bucket : EntityType × String) : Prop :=
  ∃ e ∈ p.entities, e.bucket = bucket

/-- An edge starts from the email, from an attachment under its file name
or from an entity. -/
def GraphProjection.Starts (tx : Texts) (p : GraphProjection)
    (e : ProjectionEdge) : Prop :=
  e.src = (.email, emailSrcKey)
    ∨ (∃ name, e.src = (.attachment, attachmentFilenameKey tx name))
    ∨ p.Holds e.src

/-- One call of `add`, or one edge. -/
inductive Extends (tx : Texts) : GraphProjection → GraphProjection → Prop
  | add {p : GraphProjection} {ent : ProjectionEntity}
      (hkey : Unreserved ent.canonicalKey) : Extends tx p (p.add ent).2
  | edge {p : GraphProjection} {e : ProjectionEdge}
      (hrelation : e.relation ≠ .repliesTo) (hsrc : p.Starts tx e)
      (hdst : p.Holds e.dst) : Extends tx p (p.edge e)

/-- Any number of them. -/
def Grown (tx : Texts) : GraphProjection → GraphProjection → Prop :=
  Relation.ReflTransGen (Extends tx)

section Growing

variable {tx : Texts} {p p₀ : GraphProjection}
  {e ent src dst doc : ProjectionEntity} {edge : ProjectionEdge}
  {relation : Relation} {attrs : Attributes}

theorem Grown.refl : Grown tx p p := Relation.ReflTransGen.refl

/-- What `add` returns is there. -/
theorem add_mem : (p.add ent).1 ∈ (p.add ent).2.entities := by
  unfold GraphProjection.add
  split
  · rename_i found hfind
    exact List.mem_of_find?_eq_some hfind
  · exact List.mem_append_right _ (List.mem_singleton_self _)

/-- What was there stays. -/
theorem mem_add (he : e ∈ p.entities) : e ∈ (p.add ent).2.entities := by
  unfold GraphProjection.add
  split
  · exact he
  · exact List.mem_append_left _ he

theorem Grown.mem (h : Grown tx p₀ p) (he : e ∈ p₀.entities) :
    e ∈ p.entities := by
  induction h with
  | refl => exact he
  | tail _ hlast ih =>
      cases hlast with
      | add hkey => exact mem_add ih
      | edge hrelation hsrc hdst => exact ih

theorem add_grown (hp : Grown tx p₀ p) (hkey : Unreserved ent.canonicalKey) :
    Grown tx p₀ (p.add ent).2 := hp.tail (.add hkey)

theorem link_grown (hp : Grown tx p₀ p) (hsrc : src ∈ p.entities)
    (hdst : dst ∈ p.entities) (hr : relation ≠ .repliesTo) :
    Grown tx p₀ (p.link src dst relation) :=
  hp.tail (.edge hr (Or.inr (Or.inr ⟨src, hsrc, rfl⟩)) ⟨dst, hdst, rfl⟩)

theorem linkEmail_grown (hp : Grown tx p₀ p) (hdst : dst ∈ p.entities)
    (hr : relation ≠ .repliesTo) :
    Grown tx p₀ (p.linkEmail dst relation) :=
  hp.tail (.edge hr (Or.inl rfl) ⟨dst, hdst, rfl⟩)

theorem linkDocs_grown (hp : Grown tx p₀ p) (hsrc : src ∈ p.entities)
    (hdst : dst ∈ p.entities) : Grown tx p₀ (p.linkDocs src dst attrs) :=
  hp.tail (.edge (by simp) (Or.inr (Or.inr ⟨src, hsrc, rfl⟩))
    ⟨dst, hdst, rfl⟩)

theorem linkEmailDoc_grown (hp : Grown tx p₀ p) (hdst : dst ∈ p.entities)
    {role : String} : Grown tx p₀ (p.linkEmailDoc dst role) :=
  hp.tail (.edge (by simp) (Or.inl rfl) ⟨dst, hdst, rfl⟩)

theorem addDoc_grown (tx : Texts) {sessionId : Uuid}
    {key name kind : String} {sourceFile : Option String}
    (hadd : p₀.addDoc sessionId key name kind sourceFile attrs
      = (doc, p)) : Grown tx p₀ p ∧ doc ∈ p.entities := by
  unfold GraphProjection.addDoc at hadd
  obtain ⟨rfl, rfl⟩ := Prod.mk.inj hadd.symm
  exact ⟨add_grown .refl artifactKey_unreserved, add_mem⟩

theorem linkParties_entities {parties : List ProjectionEntity} :
    (p.linkParties parties dst).entities = p.entities := by
  unfold GraphProjection.linkParties
  induction parties generalizing p with
  | nil => rfl
  | cons party rest ih => exact ih

theorem linkParties_grown {parties : List ProjectionEntity}
    (hp : Grown tx p₀ p) (hparties : ∀ e ∈ parties, e ∈ p.entities)
    (hdst : dst ∈ p.entities) :
    Grown tx p₀ (p.linkParties parties dst) := by
  unfold GraphProjection.linkParties
  induction parties generalizing p with
  | nil => exact hp
  | cons party rest ih =>
      rw [List.forall_mem_cons] at hparties
      exact ih (link_grown hp hparties.1 hdst (by decide)) hparties.2 hdst

end Growing

-- =============================================================== artifacts

section Artifacts

variable {rt : Runtime} {tx : Texts} {p p₀ : GraphProjection}

theorem projectEntry_grown (hp : Grown tx p₀ p) {content : Attributes}
    {snippet : String} {raw : Json} :
    Returns (projectEntry rt tx content snippet p raw) (Grown tx p₀) := by
  unfold projectEntry
  split
  · exact returns_ok hp
  · refine Returns.bind entityKey_unreserved fun key hkey => ?_
    exact returns_ok (linkEmail_grown (add_grown hp hkey) add_mem
      (by decide))

theorem projectExtracted_grown (hp : Grown tx p₀ p)
    {artifact : String × Json} :
    Returns (projectExtracted rt tx p artifact) (Grown tx p₀) := by
  unfold projectExtracted
  split
  · split
    · refine Returns.bind (S := fun _ => True) (fun _ _ => trivial) ?_
      intro entries _
      exact Returns.foldlM (fun _ hp _ _ => projectEntry_grown hp) hp
    · exact returns_ok hp
  · exact returns_ok hp

theorem projectIntention_grown (hp : Grown tx p₀ p)
    {report : Attributes} :
    Grown tx p₀ (projectIntention rt tx report p) := by
  unfold projectIntention
  simp only
  split
  · exact hp
  · refine linkEmail_grown (add_grown hp ?_) add_mem (by decide)
    exact unreserved_append (c := 'l') (by simp) (by simp)

/-- The parties found so far are there. -/
def PartiesGrown (tx : Texts) (p₀ : GraphProjection)
    (acc : List String × List ProjectionEntity × GraphProjection) : Prop :=
  Grown tx p₀ acc.2.2 ∧ ∀ e ∈ acc.2.1, e ∈ acc.2.2.entities

theorem projectParty_grown {snippets : Bool} {field : String × Json}
    {acc : List String × List ProjectionEntity × GraphProjection}
    (hacc : PartiesGrown tx p₀ acc) :
    Returns (projectParty rt tx snippets acc field)
      (PartiesGrown tx p₀) := by
  unfold projectParty
  split
  · simp only
    split
    · exact returns_ok hacc
    · refine Returns.bind entityKey_unreserved fun key hkey => ?_
      refine returns_ok ⟨add_grown hacc.1 hkey, fun e he => ?_⟩
      rcases List.mem_append.mp he with he | he
      · exact mem_add (hacc.2 e he)
      · rw [List.mem_singleton.mp he]
        exact add_mem
  · exact returns_ok hacc

/-- The loops over party fields. -/
theorem projectParties_grown {snippets : Bool} {fields : Attributes}
    (hp : Grown tx p₀ p) :
    Returns (fields.foldlM (projectParty rt tx snippets) ([], [], p))
      (PartiesGrown tx p₀) :=
  Returns.foldlM (fun _ hacc _ _ => projectParty_grown hacc)
    ⟨hp, fun _ h => absurd h List.not_mem_nil⟩

/-- A contract and what its parties are to it. -/
theorem contract_grown {names : List String}
    {parties : List ProjectionEntity} {q : GraphProjection}
    {ent contract : ProjectionEntity} (hadd : p.add ent = (contract, q))
    (hacc : PartiesGrown tx p₀ (names, parties, p))
    (hkey : Unreserved ent.canonicalKey) :
    Grown tx p₀ (q.linkParties parties contract)
      ∧ contract ∈ (q.linkParties parties contract).entities := by
  obtain ⟨rfl, rfl⟩ := Prod.mk.inj hadd.symm
  rw [linkParties_entities]
  exact ⟨linkParties_grown (add_grown hacc.1 hkey)
    (fun e he => mem_add (hacc.2 e he)) add_mem, add_mem⟩

theorem projectRequest_grown (hp : Grown tx p₀ p) {report : Attributes} :
    Returns (projectRequest rt tx report p) (Grown tx p₀) := by
  unfold projectRequest
  simp only
  split
  · split
    · refine Returns.bind (S := fun _ => True) (fun _ _ => trivial) ?_
      intro provided _
      refine Returns.bind (projectParties_grown hp) ?_
      rintro ⟨names, parties, p⟩ hacc
      simp only
      split
      · generalize hadd : p.add _ = added
        obtain ⟨contract, q⟩ := added
        obtain ⟨hq, hcontract⟩ :=
          contract_grown hadd hacc contractKey_unreserved
        exact returns_ok (linkEmail_grown hq hcontract (by decide))
      · exact returns_ok hacc.1
    · exact returns_ok hp
  · exact returns_ok hp

theorem projectDraft_grown (hp : Grown tx p₀ p) {draft : Attributes} :
    Returns (projectDraft rt tx draft p) (Grown tx p₀) := by
  unfold projectDraft
  refine Returns.bind (S := fun _ => True) (fun _ _ => trivial) ?_
  intro fieldValues _
  refine Returns.bind (projectParties_grown hp) ?_
  rintro ⟨names, parties, p⟩ hacc
  simp only
  generalize hadd : p.add _ = added
  obtain ⟨contract, q⟩ := added
  obtain ⟨hq, hcontract⟩ :=
    contract_grown hadd hacc contractKey_unreserved
  split
  · refine returns_ok (link_grown (add_grown hq ?_) (mem_add hcontract)
      add_mem (by decide))
    exact unreserved_append (c := 'j') (by simp) (by simp)
  · exact returns_ok hq

/-- The draft comes last, whatever the report is. -/
theorem draft_grown {artifacts : Attributes} (p : GraphProjection)
    (hp : Grown tx p₀ p) :
    Returns (match Json.getMember artifacts "contracts/draft" with
      | some (Json.obj draft) => projectDraft rt tx draft p
      | _ => pure p) (Grown tx p₀) := by
  split
  · exact projectDraft_grown hp
  · exact returns_ok hp

theorem buildProjection_grown {artifacts : Attributes} :
    Returns (buildProjectionFromArtifacts rt tx artifacts)
      (Grown tx .empty) := by
  unfold buildProjectionFromArtifacts
  refine Returns.bind (Returns.foldlM
    (fun _ hp _ _ => projectExtracted_grown hp) .refl) ?_
  intro p hp
  dsimp only
  split
  · exact Returns.bind (projectRequest_grown (projectIntention_grown hp))
      draft_grown
  · exact Returns.bind (returns_ok hp) draft_grown

end Artifacts

-- ================================================================= anchors

section Anchors

variable {rt : Runtime} {tx : Texts} {p p₀ : GraphProjection}
  {sessionId : Uuid} {artifacts : Attributes}
  {doc : ProjectionEntity} {src extractedDoc reportDoc :
    Option ProjectionEntity}

/-- A document that is there, if there is one. -/
def GraphProjection.HasDoc (p : GraphProjection)
    (doc : Option ProjectionEntity) : Prop :=
  ∀ e ∈ doc, e ∈ p.entities

theorem Grown.hasDoc (h : Grown tx p₀ p) (hdoc : p₀.HasDoc src) :
    p.HasDoc src := fun e he => h.mem (hdoc e he)

/-- A link from a document that may be missing. -/
def GraphProjection.linkFrom (p : GraphProjection)
    (src : Option ProjectionEntity) (doc : ProjectionEntity)
    (attrs : Attributes) : GraphProjection :=
  match src with
  | some src => p.linkDocs src doc attrs
  | none => p

theorem linkFrom_grown {attrs : Attributes}
    (h : Grown tx p₀ p ∧ doc ∈ p.entities) (hsrc : p₀.HasDoc src) :
    Grown tx p₀ (p.linkFrom src doc attrs)
      ∧ doc ∈ (p.linkFrom src doc attrs).entities := by
  cases src with
  | none => exact h
  | some src => exact ⟨linkDocs_grown h.1 (h.1.hasDoc hsrc src rfl) h.2, h.2⟩

/-- The document of a source artifact, linked from the two others. -/
theorem anchorSource_grown {key : String}
    (hextracted : p.HasDoc extractedDoc) (hreport : p.HasDoc reportDoc) :
    Grown tx p (anchorSource rt tx artifacts sessionId extractedDoc
      reportDoc p key) := by
  unfold anchorSource
  simp only
  generalize hadd : p.addDoc _ _ _ _ _ _ = added
  obtain ⟨doc, q⟩ := added
  have hadded := addDoc_grown tx hadd
  split
  · exact (linkFrom_grown (linkFrom_grown hadded hextracted) hreport).1
  · obtain ⟨hgrown, hdoc⟩ :=
      linkFrom_grown (linkFrom_grown hadded hextracted) hreport
    exact hgrown.tail (.edge (by simp) (Or.inr (Or.inl ⟨_, rfl⟩))
      ⟨doc, hdoc, rfl⟩)

theorem anchorSources_grown {keys : List String}
    (h : Grown tx p₀ p ∧ p.HasDoc extractedDoc ∧ p.HasDoc reportDoc) :
    Grown tx p₀ (keys.foldl (anchorSource rt tx artifacts sessionId
      extractedDoc reportDoc) p) := by
  obtain ⟨hp, hextracted, hreport⟩ := h
  induction keys generalizing p with
  | nil => exact hp
  | cons key rest ih =>
      have hkey : Grown tx p (anchorSource rt tx artifacts sessionId
          extractedDoc reportDoc p key) :=
        anchorSource_grown hextracted hreport
      exact ih (hp.trans hkey) (hkey.hasDoc hextracted)
        (hkey.hasDoc hreport)

theorem anchorExtracted_grown (tx : Texts) (p : GraphProjection)
    (sessionId : Uuid) (extracted : Attributes) :
    Grown tx p (anchorExtracted sessionId extracted p).2
      ∧ (anchorExtracted sessionId extracted p).1
        ∈ (anchorExtracted sessionId extracted p).2.entities := by
  unfold anchorExtracted
  simp only
  generalize hadd : p.addDoc _ _ _ _ _ _ = added
  obtain ⟨doc, q⟩ := added
  obtain ⟨hq, hdoc⟩ := addDoc_grown tx hadd
  exact ⟨linkEmailDoc_grown hq hdoc, hdoc⟩

theorem anchorReport_grown (tx : Texts) (sessionId : Uuid)
    (report : Attributes) (hextracted : p.HasDoc extractedDoc) :
    Grown tx p (anchorReport sessionId report extractedDoc p).2
      ∧ (anchorReport sessionId report extractedDoc p).1
        ∈ (anchorReport sessionId report extractedDoc p).2.entities := by
  unfold anchorReport
  simp only
  generalize hadd : p.addDoc _ _ _ _ _ _ = added
  obtain ⟨doc, q⟩ := added
  obtain ⟨hq, hdoc⟩ := addDoc_grown tx hadd
  have hlinked : Grown tx p (q.linkEmailDoc doc "report") :=
    linkEmailDoc_grown hq hdoc
  cases extractedDoc with
  | none => exact ⟨hlinked, hdoc⟩
  | some dst =>
      have hdst := hlinked.mem (hextracted dst rfl)
      exact ⟨linkDocs_grown hlinked hdoc hdst, hdoc⟩

/-- The document of `analysis/report`, where there is one. -/
theorem anchorReports_grown {doc : Option ProjectionEntity}
    (h : Grown tx p₀ p ∧ p.HasDoc doc) :
    let r := match dictArtifact artifacts "analysis/report" with
      | some report =>
          let (doc, p) := anchorReport sessionId report doc p
          (some doc, p)
      | none => (none, p)
    Grown tx p₀ r.2 ∧ r.2.HasDoc doc ∧ r.2.HasDoc r.1 := by
  obtain ⟨hp, hextracted⟩ := h
  split
  · rename_i report _
    obtain ⟨hgrown, hdoc⟩ :=
      anchorReport_grown tx sessionId report hextracted
    refine ⟨hp.trans hgrown, hgrown.hasDoc hextracted, ?_⟩
    rintro e ⟨⟩
    exact hdoc
  · exact ⟨hp, hextracted, (fun _ h => by cases h)⟩

theorem buildAnchor_grown :
    Returns (buildArtifactAnchorProjection rt tx artifacts sessionId)
      (Grown tx .empty) := by
  unfold buildArtifactAnchorProjection
  refine Returns.bind (S := fun _ => True) (fun _ _ => trivial) ?_
  intro keys _
  refine returns_ok (anchorSources_grown (anchorReports_grown ?_))
  split
  · rename_i extracted _
    obtain ⟨hgrown, hdoc⟩ :=
      anchorExtracted_grown tx .empty sessionId extracted
    refine ⟨hgrown, ?_⟩
    rintro e ⟨⟩
    exact hdoc
  · exact ⟨.refl, (fun _ h => by cases h)⟩

end Anchors

-- =================================================================== plain

/-- A projection of plain entities and edges. -/
structure GraphProjection.Plain (p : GraphProjection) : Prop where
  keys : ∀ e ∈ p.entities, Unreserved e.canonicalKey
  edges : ∀ e ∈ p.edges, e.relation ≠ .repliesTo

section Plain

variable {tx : Texts} {p base extra : GraphProjection}
  {ent : ProjectionEntity}

theorem add_plain (hp : p.Plain) (hkey : Unreserved ent.canonicalKey) :
    (p.add ent).2.Plain := by
  unfold GraphProjection.add
  split
  · exact hp
  · refine ⟨fun x hx => ?_, hp.edges⟩
    rcases List.mem_append.mp hx with hx | hx
    · exact hp.keys x hx
    · rw [List.mem_singleton.mp hx]
      exact hkey

/-- What the extraction builds is plain. -/
theorem Grown.plain (h : Grown tx .empty p) : p.Plain := by
  induction h with
  | refl =>
      exact ⟨fun _ h => absurd h List.not_mem_nil,
        fun _ h => absurd h List.not_mem_nil⟩
  | tail _ hlast ih =>
      cases hlast with
      | add hkey => exact add_plain ih hkey
      | edge hrelation hsrc hdst =>
          refine ⟨ih.keys, fun x hx => ?_⟩
          rcases List.mem_append.mp hx with hx | hx
          · exact ih.edges x hx
          · rw [List.mem_singleton.mp hx]
            exact hrelation

/-- Merging keeps the first entity of each bucket. -/
theorem mergeEntity_eq :
    mergeEntity = keepFirst ProjectionEntity.bucket := by
  funext entities ent
  simp only [mergeEntity, keepFirst, ProjectionEntity.bucket,
    Prod.mk.injEq]

/-- A merged entity is one of the two projections. -/
theorem mem_mergeEntities {entities more : List ProjectionEntity}
    (h : ent ∈ more.foldl mergeEntity entities) :
    ent ∈ entities ∨ ent ∈ more := by
  rw [mergeEntity_eq, mem_foldl_keepFirst] at h
  exact h.imp_right fun hmore => List.mem_of_find?_eq_some hmore.2

theorem merge_plain (hb : base.Plain) (he : extra.Plain) :
    (mergeProjections base extra).Plain := by
  refine ⟨fun e hmem => ?_, fun d hmem => ?_⟩
  · exact (mem_mergeEntities hmem).elim (hb.keys e) (he.keys e)
  · exact (List.mem_append.mp hmem).elim (hb.edges d) (he.edges d)

theorem llmEntities_plain {rt : Runtime}
    {raws : List LlmExtractedEntity} :
    Returns (raws.mapM (llmEntity rt tx))
      (fun entities => GraphProjection.Plain ⟨entities, []⟩) := by
  have hkeys : Returns (raws.mapM (llmEntity rt tx)) (fun entities =>
      ∀ e ∈ entities, Unreserved e.canonicalKey) :=
    Returns.mapM fun raw _ => Returns.bind entityKey_unreserved
      fun key hkey => returns_ok hkey
  exact fun entities hok =>
    ⟨hkeys entities hok, fun _ h => absurd h List.not_mem_nil⟩

theorem llmEnrich_plain {rt : Runtime} {enabled : Bool}
    {reply : Option (List LlmExtractedEntity)} (hb : base.Plain) :
    Returns (llmEnrichProjection rt tx enabled reply base)
      GraphProjection.Plain := by
  unfold llmEnrichProjection
  split
  · split
    · exact returns_ok hb
    · exact Returns.bind llmEntities_plain fun entities hentities =>
        returns_ok (merge_plain hb hentities)
  · exact returns_ok hb

/-- What a run projects. -/
theorem runProjection_plain {env : GraphEnv} {src : Sources}
    {sessionId : Uuid} {reply : Option (List LlmExtractedEntity)} :
    Returns (runProjection env src sessionId reply)
      GraphProjection.Plain := by
  unfold runProjection
  refine Returns.bind (S := fun _ => True) (fun _ _ => trivial) ?_
  intro artifacts _
  refine Returns.bind buildProjection_grown fun projection hp => ?_
  refine Returns.bind buildAnchor_grown fun anchor ha => ?_
  exact llmEnrich_plain (merge_plain hp.plain ha.plain)

end Plain

end LegalBot.Memory
