/-
The documents of an anchor projection against the artifacts of its bundle.

# Three sources

The keys of the documents come from the rows of `analysis/extracted`, from
the names of the attachments in it and from the bundle. A row names the
artifacts there were when the inventory was built. But `extracted_data/`
and the name of an attachment is always taken for one as well, if anything
was extracted from it, and no image has it. `Backed` is what an attachment
needs for its keys to be those of artifacts.

# Once

`add` keeps one document of a key, so the types and keys of the anchor are
the first ones of a list of keys (`anchor_buckets`).
-/
import LegalBot.Agents.ExtractInventory
import LegalBot.Json.Members
import LegalBot.Memory.Projected

namespace LegalBot.Memory

open Inventory (Attachment buildExtractInventory loadEmailForSession
  readArtifactContent isImage)
open Json (getMember setMember truthy)
open Programs
open Ranking (keepFirst firsts)

-- ============================================================== statements

/-- The keys of artifacts that are to have a document. -/
def Documented (key : String) : Prop :=
  key = "analysis/extracted" ∨ key = "analysis/report"
    ∨ startsWith key "extracted_data/" ∨ startsWith key "extracted_text/"
    ∨ startsWith key "image_analysis/"

/-- The keys of the documents. -/
def GraphProjection.documentKeys (p : GraphProjection) : List String :=
  (p.entities.filter (·.entityType = .document)).map (·.canonicalKey)

/-- The documents are those of artifacts of the bundle, each once. -/
structure OnlyStored (artifacts : Attributes) (sessionId : Uuid)
    (p : GraphProjection) : Prop where
  once : p.documentKeys.Nodup
  exact : ∀ k, k ∈ p.documentKeys ↔ ∃ key ∈ artifacts.map (·.1),
    Documented key ∧ k = artifactCanonicalKey sessionId key

/-- The inventory found an artifact under the key. -/
def Found (rt : Runtime) (src : Inventory.Sources) (sessionId : Uuid)
    (key : String) : Prop :=
  ∃ content, readArtifactContent rt src sessionId key = .ok (some content)

/-- The artifacts that an attachment which was found is taken to have are
in the bundle. -/
def Backed (rt : Runtime) (src : Inventory.Sources) (sessionId : Uuid)
    (artifacts : Attributes) (att : Attachment) : Prop :=
  let stored := fun key : String => key ∈ artifacts.map (·.1)
  let found := Found rt src sessionId
  if isImage att.mimeType then
    found ("image_analysis/" ++ att.name) →
      stored ("image_analysis/" ++ att.name)
        ∧ stored ("extracted_data/" ++ att.name)
  else
    (found ("extracted_data/" ++ att.name) →
        stored ("extracted_data/" ++ att.name))
      ∧ (found ("extracted_text/" ++ att.name) →
        stored ("extracted_text/" ++ att.name)
          ∧ stored ("extracted_data/" ++ att.name))

/-- The report is a dict, if there is one. -/
def ReportIsDict (artifacts : Attributes) : Prop :=
  ∀ v, getMember artifacts "analysis/report" = some v → ∃ d, v = .obj d

-- =============================================================== documents

section Documents

variable {rt : Runtime} {tx : Texts} {artifacts : Attributes}
  {sessionId : Uuid} {p : GraphProjection} {keys : List String}
  {extractedDoc reportDoc : Option ProjectionEntity}

/-- What a document is kept under. -/
def docBucket (sessionId : Uuid) (key : String) : EntityType × String :=
  (.document, artifactCanonicalKey sessionId key)

theorem docBucket_inj {key key' : String}
    (h : docBucket sessionId key = docBucket sessionId key') :
    key = key' := (String.append_right_inj _).mp (Prod.mk.inj h).2

/-- The types and keys of the entities, in order. -/
def GraphProjection.buckets (p : GraphProjection) :
    List (EntityType × String) := p.entities.map (·.bucket)

theorem add_buckets {ent : ProjectionEntity} :
    (p.add ent).2.buckets = keepFirst id p.buckets ent.bucket := by
  unfold GraphProjection.add GraphProjection.buckets keepFirst
  split
  · rename_i found hfind
    have hsame : found.bucket = ent.bucket := by
      obtain ⟨htype, hkey⟩ : found.entityType = ent.entityType
          ∧ found.canonicalKey = ent.canonicalKey := by
        simpa using List.find?_some hfind
      exact Prod.ext htype hkey
    rw [if_pos ⟨_, List.mem_map_of_mem (List.mem_of_find?_eq_some hfind),
      hsame⟩]
  · rename_i hnone
    rw [if_neg, List.map_append]
    · rfl
    · rintro ⟨b, hb, hsame⟩
      obtain ⟨e, he, rfl⟩ := List.mem_map.mp hb
      exact List.find?_eq_none.mp hnone e he
        (decide_eq_true (Prod.mk.inj hsame))

theorem addDoc_buckets {key name kind : String}
    {sourceFile : Option String} {attrs : Attributes} :
    (p.addDoc sessionId key name kind sourceFile attrs).2.buckets
      = keepFirst id p.buckets (docBucket sessionId key) := add_buckets

theorem anchorExtracted_buckets {extracted : Attributes} :
    (anchorExtracted sessionId extracted p).2.buckets
      = keepFirst id p.buckets
        (docBucket sessionId "analysis/extracted") := add_buckets

theorem anchorReport_buckets {report : Attributes} :
    (anchorReport sessionId report extractedDoc p).2.buckets
      = keepFirst id p.buckets
        (docBucket sessionId "analysis/report") := by
  cases extractedDoc with
  | none => exact add_buckets
  | some doc => exact add_buckets

theorem anchorSource_buckets {key : String} :
    (anchorSource rt tx artifacts sessionId extractedDoc reportDoc p
      key).buckets = keepFirst id p.buckets (docBucket sessionId key) := by
  have hadded : ∀ p' : GraphProjection,
      (p.addDoc sessionId key key (keyPrefix key)
        (sourceFileOf rt artifacts key) []).2.entities = p'.entities →
        p'.buckets
          = keepFirst id p.buckets (docBucket sessionId key) := by
    intro p' hp'
    unfold GraphProjection.buckets
    rw [← hp']
    exact addDoc_buckets
  refine hadded _ ?_
  unfold anchorSource
  cases extractedDoc <;> cases reportDoc <;> simp only <;> split <;> rfl

theorem anchorSources_buckets :
    (keys.foldl (anchorSource rt tx artifacts sessionId extractedDoc
        reportDoc) p).buckets
      = (keys.map (docBucket sessionId)).foldl (keepFirst id)
        p.buckets := by
  induction keys generalizing p with
  | nil => rfl
  | cons key rest ih =>
      rw [List.foldl_cons, ih, anchorSource_buckets]
      rfl

/-- The keys that have a document, in order. -/
def anchorKeys (artifacts : Attributes) (keys : List String) :
    List String :=
  (match dictArtifact artifacts "analysis/extracted" with
    | some _ => ["analysis/extracted"]
    | none => [])
    ++ (match dictArtifact artifacts "analysis/report" with
      | some _ => ["analysis/report"]
      | none => [])
    ++ keys

theorem anchor_buckets
    (hkeys : sourceArtifactKeys rt artifacts
      (dictArtifact artifacts "analysis/extracted") = .ok keys)
    (hp : buildArtifactAnchorProjection rt tx artifacts sessionId
      = .ok p) :
    p.buckets = firsts id
      ((anchorKeys artifacts keys).map (docBucket sessionId)) := by
  unfold buildArtifactAnchorProjection at hp
  simp only [hkeys, ok_bind] at hp
  injection hp with hp
  rw [← hp, anchorSources_buckets]
  unfold firsts anchorKeys
  cases dictArtifact artifacts "analysis/extracted" with
  | none =>
      cases dictArtifact artifacts "analysis/report" with
      | none => rfl
      | some report =>
          simp only [anchorReport_buckets, List.map_append,
            List.foldl_append]
          rfl
  | some extracted =>
      cases dictArtifact artifacts "analysis/report" with
      | none =>
          simp only [anchorExtracted_buckets, List.map_append,
            List.foldl_append]
          rfl
      | some report =>
          simp only [anchorReport_buckets, anchorExtracted_buckets,
            List.map_append, List.foldl_append]
          rfl

/-- Every entity of an anchor is a document, under one of the keys. -/
theorem mem_anchorKeys
    (hkeys : sourceArtifactKeys rt artifacts
      (dictArtifact artifacts "analysis/extracted") = .ok keys)
    (hp : buildArtifactAnchorProjection rt tx artifacts sessionId
      = .ok p) (k : String) :
    k ∈ p.documentKeys ↔ ∃ key ∈ anchorKeys artifacts keys,
      k = artifactCanonicalKey sessionId key := by
  have hbuckets : (EntityType.document, k) ∈ p.buckets
      ↔ ∃ key ∈ anchorKeys artifacts keys,
        k = artifactCanonicalKey sessionId key := by
    rw [anchor_buckets hkeys hp, Ranking.mem_firsts_id, List.mem_map]
    exact ⟨fun ⟨key, hkey, h⟩ => ⟨key, hkey, (Prod.mk.inj h).2.symm⟩,
      fun ⟨key, hkey, h⟩ => ⟨key, hkey, Prod.ext rfl h.symm⟩⟩
  rw [← hbuckets]
  unfold GraphProjection.documentKeys GraphProjection.buckets
  constructor
  · intro h
    obtain ⟨e, he, rfl⟩ := List.mem_map.mp h
    obtain ⟨he, htype⟩ := List.mem_filter.mp he
    have htype : e.entityType = .document := by simpa using htype
    exact List.mem_map.mpr ⟨e, he, Prod.ext htype rfl⟩
  · intro h
    obtain ⟨e, he, hbucket⟩ := List.mem_map.mp h
    obtain ⟨htype, hkey⟩ := Prod.mk.inj hbucket
    exact List.mem_map.mpr
      ⟨e, List.mem_filter.mpr ⟨he, by simpa using htype⟩, hkey⟩

/-- No document is listed twice. -/
theorem documentKeys_nodup
    (hkeys : sourceArtifactKeys rt artifacts
      (dictArtifact artifacts "analysis/extracted") = .ok keys)
    (hp : buildArtifactAnchorProjection rt tx artifacts sessionId
      = .ok p) : p.documentKeys.Nodup := by
  have hnodup : (p.buckets.map id).Nodup := by
    rw [anchor_buckets hkeys hp]
    exact Ranking.firsts_keys_nodup
  rw [List.map_id] at hnodup
  unfold GraphProjection.documentKeys
  refine (List.nodup_map_iff_inj_on
    ((List.Nodup.of_map _ hnodup).filter _)).mpr fun e he e' he' hkey => ?_
  obtain ⟨he, htype⟩ := List.mem_filter.mp he
  obtain ⟨he', htype'⟩ := List.mem_filter.mp he'
  refine List.inj_on_of_nodup_map hnodup he he' (Prod.ext ?_ hkey)
  have htype : e.entityType = .document := by simpa using htype
  have htype' : e'.entityType = .document := by simpa using htype'
  exact htype.trans htype'.symm

/-- The keys of the sources: those of the rows, and those stored under one
of the three prefixes. -/
theorem mem_sourceKeys {extracted : Attributes} {rows : List Json}
    (hrows : iterate (getOr extracted "attachments" (.arr [])) = .ok rows)
    (hkeys : sourceArtifactKeys rt artifacts (some extracted) = .ok keys)
    (key : String) : key ∈ keys
      ↔ (∃ row ∈ rows, key ∈ attachmentArtifactKeys rt row)
        ∨ key ∈ artifacts.map (·.1)
          ∧ (startsWith key "extracted_data/"
            ∨ startsWith key "extracted_text/"
            ∨ startsWith key "image_analysis/") := by
  unfold sourceArtifactKeys at hkeys
  simp only [hrows, ok_bind] at hkeys
  injection hkeys with hkeys
  rw [← hkeys, List.mem_insertionSort, List.mem_dedup, List.mem_append,
    List.mem_flatMap, List.mem_filter, Bool.or_eq_true, Bool.or_eq_true,
    or_assoc]

end Documents

-- ==================================================================== rows

section Rows

variable {rt : Runtime} {src : Inventory.Sources} {sessionId : Uuid}
  {artifacts inventory classification : Attributes} {att : Attachment}
  {row : Inventory.Row} {email : Inventory.SessionEmail}

theorem getOr_text (rt : Runtime) {d : Attributes} {k : String}
    {text : Option String}
    (h : getMember d k = some (Inventory.textOrNull text))
    (hne : ∀ s ∈ text, s ≠ "") :
    ([getOr d k .null].filter truthy).map (strOf rt) = text.toList := by
  unfold getOr
  rw [h]
  cases text with
  | none => rfl
  | some s =>
      have hs : truthy (.str s) := by simpa [truthy] using hne s rfl
      simp [Inventory.textOrNull, hs, strOf]

/-- The keys taken from a row. -/
theorem row_artifactKeys (hname : row.name ≠ "")
    (hdata : ∀ s ∈ row.keys.data, s ≠ "")
    (htext : ∀ s ∈ row.keys.text, s ≠ "") :
    attachmentArtifactKeys rt row.json
      = if row.keys.ok then
          row.keys.data.toList ++ row.keys.text.toList
            ++ ["extracted_data/" ++ row.name]
        else [] := by
  obtain ⟨d, hd⟩ : ∃ d, row.json = .obj d := ⟨_, rfl⟩
  have hmember : getMember d "processed" = some (.bool row.keys.ok)
      ∧ getMember d "name" = some (.str row.name)
      ∧ getMember d "data_artifact_key"
        = some (Inventory.textOrNull row.keys.data)
      ∧ getMember d "text_artifact_key"
        = some (Inventory.textOrNull row.keys.text) := by
    injection hd with hd
    subst hd
    exact ⟨rfl, rfl, rfl, rfl⟩
  obtain ⟨hok, hrow, hd', ht'⟩ := hmember
  have hnamed : getOr d "name" .null = .str row.name := by
    unfold getOr
    rw [hrow]
    simp [truthy, hname]
  have hrefs : ([getOr d "data_artifact_key" .null,
      getOr d "text_artifact_key" .null].filter truthy).map (strOf rt)
        = row.keys.data.toList ++ row.keys.text.toList := by
    rw [← getOr_text rt hd' hdata, ← getOr_text rt ht' htext,
      ← List.map_append, ← List.filter_append]
    rfl
  have hslot : truthy (.str row.name) := by simpa [truthy] using hname
  rw [hd]
  unfold attachmentArtifactKeys
  simp only [hok, Option.getD_some, hnamed, hrefs, hslot, if_true]
  rfl

theorem found_iff {key : String} {content : Option Content}
    (h : readArtifactContent rt src sessionId key = .ok content) :
    Found rt src sessionId key ↔ content.isSome := by
  unfold Found
  rw [h]
  cases content with
  | none => exact ⟨fun ⟨_, h⟩ => (by cases h), fun h => (by cases h)⟩
  | some c => exact ⟨fun _ => rfl, fun _ => ⟨c, rfl⟩⟩

/-- The keys of an attachment, by what was read of the three. -/
theorem activeKeys_returned {name : String} {mime : Option String}
    {keys : Inventory.ActiveKeys}
    (h : Inventory.activeKeys rt src sessionId name mime = .ok keys) :
    ∃ data image text,
      readArtifactContent rt src sessionId ("extracted_data/" ++ name)
          = .ok data
        ∧ readArtifactContent rt src sessionId ("image_analysis/" ++ name)
          = .ok image
        ∧ readArtifactContent rt src sessionId ("extracted_text/" ++ name)
          = .ok text
        ∧ keys = if isImage mime then
            { data := image.map fun _ => "image_analysis/" ++ name
              text := none
              image := image.map fun _ => "image_analysis/" ++ name }
          else
            { data := data.map fun _ => "extracted_data/" ++ name
              text := text.map fun _ => "extracted_text/" ++ name
              image := none } := by
  unfold Inventory.activeKeys at h
  obtain ⟨data, hdata, h⟩ := returned_bind h
  obtain ⟨image, himage, h⟩ := returned_bind h
  obtain ⟨text, htext, h⟩ := returned_bind h
  refine ⟨data, image, text, hdata, himage, htext, ?_⟩
  split at h
  · rename_i hmime
    rw [if_pos hmime]
    exact (Except.ok.inj h).symm
  · rename_i hmime
    rw [if_neg hmime]
    exact (Except.ok.inj h).symm

/-- The row of an attachment has its name and keys. -/
theorem attachmentRow_keys
    (h : Inventory.attachmentRow rt src sessionId att = .ok row) :
    row.name = att.name ∧ Inventory.activeKeys rt src sessionId att.name
      att.mimeType = .ok row.keys := by
  unfold Inventory.attachmentRow at h
  obtain ⟨keys, hkeys, h⟩ := returned_bind h
  obtain ⟨preview, -, h⟩ := returned_bind h
  cases h
  exact ⟨rfl, hkeys⟩

/-- The keys taken from the row of an attachment. -/
theorem row_derived (hname : att.name ≠ "")
    (h : Inventory.attachmentRow rt src sessionId att = .ok row)
    (key : String) :
    key ∈ attachmentArtifactKeys rt row.json
      ↔ if isImage att.mimeType then
          Found rt src sessionId ("image_analysis/" ++ att.name)
            ∧ (key = "image_analysis/" ++ att.name
              ∨ key = "extracted_data/" ++ att.name)
        else
          Found rt src sessionId ("extracted_data/" ++ att.name)
              ∧ key = "extracted_data/" ++ att.name
            ∨ Found rt src sessionId ("extracted_text/" ++ att.name)
              ∧ (key = "extracted_text/" ++ att.name
                ∨ key = "extracted_data/" ++ att.name) := by
  obtain ⟨hrow, hactive⟩ := attachmentRow_keys h
  obtain ⟨data, image, text, hdata, himage, htext, hkeys⟩ :=
    activeKeys_returned hactive
  have hne : ∀ {v : Option Content} {pre : String} (s : String),
      s ∈ v.map (fun _ => pre ++ att.name) → s ≠ "" := by
    rintro v pre s hs rfl
    obtain ⟨_, -, hs⟩ := Option.map_eq_some_iff.mp hs
    exact hname (String.append_eq_empty_iff.mp hs).2
  rw [row_artifactKeys (hrow ▸ hname), hrow, found_iff hdata,
    found_iff himage, found_iff htext, hkeys]
  · cases isImage att.mimeType with
    | true => cases image <;> simp [Inventory.ActiveKeys.ok]
    | false =>
        cases data <;> cases text <;> simp [Inventory.ActiveKeys.ok]
  · rw [hkeys]
    split
    · exact hne
    · exact hne
  · rw [hkeys]
    split
    · simp
    · exact hne

/-- What a row needs for its keys to be stored. -/
theorem row_backed (hname : att.name ≠ "")
    (h : Inventory.attachmentRow rt src sessionId att = .ok row) :
    (∀ key ∈ attachmentArtifactKeys rt row.json, key ∈ artifacts.map (·.1))
      ↔ Backed rt src sessionId artifacts att := by
  unfold Backed
  simp only [row_derived hname h]
  split
  · constructor
    · exact fun hall hfound =>
        ⟨hall _ ⟨hfound, .inl rfl⟩, hall _ ⟨hfound, .inr rfl⟩⟩
    · rintro hbacked key ⟨hfound, rfl | rfl⟩
      · exact (hbacked hfound).1
      · exact (hbacked hfound).2
  · constructor
    · exact fun hall => ⟨fun hfound => hall _ (.inl ⟨hfound, rfl⟩),
        fun hfound => ⟨hall _ (.inr ⟨hfound, .inl rfl⟩),
          hall _ (.inr ⟨hfound, .inr rfl⟩)⟩⟩
    · rintro ⟨hdata, htext⟩ key (⟨hfound, rfl⟩ | ⟨hfound, rfl | rfl⟩)
      · exact hdata hfound
      · exact (htext hfound).1
      · exact (htext hfound).2

/-- The keys of a row have one of the three prefixes. -/
theorem row_prefixed (hname : att.name ≠ "")
    (h : Inventory.attachmentRow rt src sessionId att = .ok row)
    {key : String} (hkey : key ∈ attachmentArtifactKeys rt row.json) :
    startsWith key "extracted_data/" ∨ startsWith key "extracted_text/"
      ∨ startsWith key "image_analysis/" := by
  have hstarts : ∀ pre : String, startsWith (pre ++ att.name) pre := by
    intro pre
    unfold startsWith
    rw [String.toList_append]
    exact decide_eq_true (List.prefix_append _ _)
  have hcases : key = "extracted_data/" ++ att.name
      ∨ key = "extracted_text/" ++ att.name
      ∨ key = "image_analysis/" ++ att.name := by
    rw [row_derived hname h] at hkey
    split at hkey
    · rcases hkey with ⟨-, hkey | hkey⟩
      · exact .inr (.inr hkey)
      · exact .inl hkey
    · rcases hkey with ⟨-, hkey⟩ | ⟨-, hkey | hkey⟩
      · exact .inl hkey
      · exact .inr (.inl hkey)
      · exact .inl hkey
  rcases hcases with rfl | rfl | rfl
  · exact .inl (hstarts _)
  · exact .inr (.inl (hstarts _))
  · exact .inr (.inr (hstarts _))

/-- The attachments of an inventory are the rows of those of the email. -/
theorem inventory_rows
    (hemail : loadEmailForSession src sessionId = some email)
    (hinv : buildExtractInventory rt src sessionId classification
      = .ok inventory) :
    ∃ rows, List.Forall₂ (fun att row =>
        Inventory.attachmentRow rt src sessionId att = .ok row)
          email.attachments rows
      ∧ iterate (getOr inventory "attachments" (.arr []))
        = .ok (rows.map Inventory.Row.json) := by
  unfold buildExtractInventory at hinv
  rw [hemail] at hinv
  obtain ⟨existing, -, hinv⟩ := returned_bind hinv
  obtain ⟨rows, hrows, hinv⟩ := returned_bind hinv
  obtain ⟨threadRows, -, hinv⟩ := returned_bind hinv
  refine ⟨rows, mapM_returned hrows, ?_⟩
  have hmember : getMember inventory "attachments"
      = some (.arr (rows.map Inventory.Row.json)) := by
    rw [← Except.ok.inj hinv]
    simp [Json.getMember_setMember]
  unfold getOr
  rw [hmember]
  cases rows <;> rfl

/-- The names of the attachments are not empty. -/
theorem attachment_named
    (hemail : loadEmailForSession src sessionId = some email)
    (h : att ∈ email.attachments) : att.name ≠ "" := by
  unfold loadEmailForSession at hemail
  simp only [Option.bind_eq_bind, Option.bind_eq_some_iff,
    Option.some.injEq] at hemail
  obtain ⟨session, -, job, -, row, -, rfl⟩ := hemail
  obtain ⟨a, -, rfl⟩ := List.mem_map.mp h
  dsimp only
  split
  · simp
  · assumption

/-- Elements with what was made of each, found by either. -/
theorem forall₂_exists {α β : Type} {R : α → β → Prop} {xs : List α}
    {ys : List β} (h : List.Forall₂ R xs ys) :
    (∀ a ∈ xs, ∃ b ∈ ys, R a b) ∧ ∀ b ∈ ys, ∃ a ∈ xs, R a b := by
  induction h with
  | nil => exact ⟨(fun _ h => by cases h), (fun _ h => by cases h)⟩
  | cons hab _ ih =>
      refine ⟨fun x hx => ?_, fun y hy => ?_⟩
      · rcases List.mem_cons.mp hx with rfl | hx
        · exact ⟨_, List.mem_cons_self, hab⟩
        · obtain ⟨b, hb, hr⟩ := ih.1 x hx
          exact ⟨b, List.mem_cons_of_mem _ hb, hr⟩
      · rcases List.mem_cons.mp hy with rfl | hy
        · exact ⟨_, List.mem_cons_self, hab⟩
        · obtain ⟨a, ha, hr⟩ := ih.2 y hy
          exact ⟨a, List.mem_cons_of_mem _ ha, hr⟩

end Rows

-- ================================================================= bundles

section Bundles

variable {rt : Runtime} {tx : Texts} {artifacts inventory : Attributes}
  {sessionId : Uuid} {rows : List Json} {keys : List String}
  {p : GraphProjection}

/-- A bundle with an inventory, what its rows are and what they lead to. -/
structure Anchored (rt : Runtime) (tx : Texts) (artifacts : Attributes)
    (sessionId : Uuid) (rows : List Json) (keys : List String)
    (p : GraphProjection) : Prop where
  extracted : ∃ inventory,
    getMember artifacts "analysis/extracted" = some (.obj inventory)
      ∧ iterate (getOr inventory "attachments" (.arr [])) = .ok rows
  keys : sourceArtifactKeys rt artifacts
    (dictArtifact artifacts "analysis/extracted") = .ok keys
  built : buildArtifactAnchorProjection rt tx artifacts sessionId = .ok p
  prefixed : ∀ row ∈ rows, ∀ key ∈ attachmentArtifactKeys rt row,
    startsWith key "extracted_data/" ∨ startsWith key "extracted_text/"
      ∨ startsWith key "image_analysis/"

theorem mem_stored {k : String} {v : Json}
    (h : getMember artifacts k = some v) : k ∈ artifacts.map (·.1) :=
  List.mem_map_of_mem (Json.getMember_mem h)

theorem dictArtifact_isSome {k : String} :
    (dictArtifact artifacts k).isSome
      ↔ ∃ d, getMember artifacts k = some (.obj d) := by
  unfold dictArtifact
  split
  · rename_i d hd
    exact ⟨fun _ => ⟨d, hd⟩, fun _ => rfl⟩
  · rename_i hnot
    refine ⟨fun h => (by cases h), fun ⟨d, hd⟩ => ?_⟩
    exact absurd hd (hnot d)

theorem Anchored.mem_keys
    (h : Anchored rt tx artifacts sessionId rows keys p) (key : String) :
    key ∈ keys ↔ (∃ row ∈ rows, key ∈ attachmentArtifactKeys rt row)
      ∨ key ∈ artifacts.map (·.1)
        ∧ (startsWith key "extracted_data/"
          ∨ startsWith key "extracted_text/"
          ∨ startsWith key "image_analysis/") := by
  obtain ⟨inventory, hmember, hrows⟩ := h.extracted
  have hkeys := h.keys
  unfold dictArtifact at hkeys
  rw [hmember] at hkeys
  exact mem_sourceKeys hrows hkeys key

/-- A key of a source is neither of the two of the analysis. -/
theorem Anchored.not_analysis
    (h : Anchored rt tx artifacts sessionId rows keys p) {key : String}
    (hkey : key ∈ keys) :
    startsWith key "extracted_data/" ∨ startsWith key "extracted_text/"
      ∨ startsWith key "image_analysis/" := by
  rcases (h.mem_keys key).mp hkey with ⟨row, hrow, hkey⟩ | ⟨-, hkey⟩
  · exact h.prefixed row hrow key hkey
  · exact hkey

/-- Which keys have a document. -/
theorem Anchored.mem_documents
    (h : Anchored rt tx artifacts sessionId rows keys p) (key : String) :
    artifactCanonicalKey sessionId key ∈ p.documentKeys
      ↔ key = "analysis/extracted"
        ∨ key = "analysis/report"
          ∧ (dictArtifact artifacts "analysis/report").isSome
        ∨ key ∈ keys := by
  obtain ⟨inventory, hmember, -⟩ := h.extracted
  rw [mem_anchorKeys h.keys h.built]
  unfold anchorKeys
  have hdict : dictArtifact artifacts "analysis/extracted"
      = some inventory := by
    unfold dictArtifact
    rw [hmember]
  have hinj : (∃ k ∈ anchorKeys artifacts keys,
      artifactCanonicalKey sessionId key
        = artifactCanonicalKey sessionId k)
      ↔ key ∈ anchorKeys artifacts keys := by
    constructor
    · rintro ⟨k, hk, hsame⟩
      exact (String.append_right_inj _).mp hsame ▸ hk
    · exact fun hk => ⟨key, hk, rfl⟩
  refine hinj.trans ?_
  unfold anchorKeys
  rw [hdict]
  cases dictArtifact artifacts "analysis/report" <;> simp

/-- The documents are those of artifacts exactly where the rows name
artifacts and the report is a dict. -/
theorem Anchored.onlyStored_iff
    (h : Anchored rt tx artifacts sessionId rows keys p) :
    OnlyStored artifacts sessionId p
      ↔ (∀ row ∈ rows, ∀ key ∈ attachmentArtifactKeys rt row,
          key ∈ artifacts.map (·.1))
        ∧ ReportIsDict artifacts := by
  obtain ⟨inventory, hmember, -⟩ := h.extracted
  constructor
  · intro honly
    have hdoc : ∀ key, artifactCanonicalKey sessionId key ∈ p.documentKeys
        ↔ key ∈ artifacts.map (·.1) ∧ Documented key := by
      intro key
      rw [honly.exact]
      constructor
      · rintro ⟨k, hk, hdocumented, hsame⟩
        rw [(String.append_right_inj _).mp hsame]
        exact ⟨hk, hdocumented⟩
      · exact fun ⟨hk, hdocumented⟩ => ⟨key, hk, hdocumented, rfl⟩
    refine ⟨fun row hrow key hkey => ?_, fun v hv => ?_⟩
    · have hmem := (h.mem_keys key).mpr (.inl ⟨row, hrow, hkey⟩)
      exact ((hdoc key).mp
        ((h.mem_documents key).mpr (.inr (.inr hmem)))).1
    · have hmem := (hdoc "analysis/report").mpr
        ⟨mem_stored hv, .inr (.inl rfl)⟩
      rcases (h.mem_documents _).mp hmem with hkey | ⟨-, hdict⟩ | hkey
      · exact absurd hkey (by decide)
      · obtain ⟨d, hd⟩ := dictArtifact_isSome.mp hdict
        exact ⟨d, Option.some.inj (hv.symm.trans hd)⟩
      · exact absurd (h.not_analysis hkey) (by decide +kernel)
  · rintro ⟨hrows, hreport⟩
    refine ⟨documentKeys_nodup h.keys h.built, fun k => ⟨fun hk => ?_, ?_⟩⟩
    · obtain ⟨key, -, rfl⟩ := (mem_anchorKeys h.keys h.built k).mp hk
      rcases (h.mem_documents key).mp hk with rfl | ⟨rfl, hdict⟩ | hkey
      · exact ⟨_, mem_stored hmember, .inl rfl, rfl⟩
      · obtain ⟨d, hd⟩ := dictArtifact_isSome.mp hdict
        exact ⟨_, mem_stored hd, .inr (.inl rfl), rfl⟩
      · have hstored : key ∈ artifacts.map (·.1) := by
          rcases (h.mem_keys key).mp hkey with ⟨row, hrow, hkey⟩ | hkey
          · exact hrows row hrow key hkey
          · exact hkey.1
        exact ⟨key, hstored, .inr (.inr (h.not_analysis hkey)), rfl⟩
    · rintro ⟨key, hstored, hdocumented, rfl⟩
      refine (h.mem_documents key).mpr ?_
      rcases hdocumented with rfl | rfl | hprefix
      · exact .inl rfl
      · refine .inr (.inl ⟨rfl, dictArtifact_isSome.mpr ?_⟩)
        cases hv : getMember artifacts "analysis/report" with
        | none => exact absurd hstored (Json.getMember_eq_none.mp hv)
        | some v =>
            obtain ⟨d, rfl⟩ := hreport v hv
            exact ⟨d, rfl⟩
      · exact .inr (.inr ((h.mem_keys key).mpr (.inr ⟨hstored, hprefix⟩)))

end Bundles

/-- The documents of an anchor are those of the artifacts of the bundle,
each once, exactly where every attachment that was found is backed by the
bundle and the report is a dict. -/
theorem only_stored_iff {rt : Runtime} {tx : Texts}
    {src : Inventory.Sources} {sessionId : Uuid}
    {artifacts inventory classification : Attributes}
    {email : Inventory.SessionEmail}
    (hemail : loadEmailForSession src sessionId = some email)
    (hinv : buildExtractInventory rt src sessionId classification
      = .ok inventory)
    (hstored : getMember artifacts "analysis/extracted"
      = some (.obj inventory)) :
    (∃ p, buildArtifactAnchorProjection rt tx artifacts sessionId = .ok p
        ∧ OnlyStored artifacts sessionId p)
      ↔ (∀ att ∈ email.attachments,
          Backed rt src sessionId artifacts att)
        ∧ ReportIsDict artifacts := by
  obtain ⟨rows, hrows, hiter⟩ := inventory_rows hemail hinv
  obtain ⟨hof, hby⟩ := forall₂_exists hrows
  have hdict : dictArtifact artifacts "analysis/extracted"
      = some inventory := by
    unfold dictArtifact
    rw [hstored]
  obtain ⟨keys, hkeys⟩ : Succeeds (sourceArtifactKeys rt artifacts
      (dictArtifact artifacts "analysis/extracted")) := by
    rw [hdict]
    unfold sourceArtifactKeys
    simp only [hiter, ok_bind]
    exact ⟨_, rfl⟩
  have hanchored : ∀ p, buildArtifactAnchorProjection rt tx artifacts
      sessionId = .ok p → Anchored rt tx artifacts sessionId
        (rows.map Inventory.Row.json) keys p := by
    refine fun p hp => ⟨⟨inventory, hstored, hiter⟩, hkeys, hp, ?_⟩
    intro shown hshown key hkey
    obtain ⟨row, hrow, rfl⟩ := List.mem_map.mp hshown
    obtain ⟨att, hatt, hmade⟩ := hby row hrow
    exact row_prefixed (attachment_named hemail hatt) hmade hkey
  have hbacked : (∀ row ∈ rows.map Inventory.Row.json,
      ∀ key ∈ attachmentArtifactKeys rt row, key ∈ artifacts.map (·.1))
      ↔ ∀ att ∈ email.attachments,
        Backed rt src sessionId artifacts att := by
    rw [List.forall_mem_map]
    constructor
    · intro hall att hatt
      obtain ⟨row, hrow, hmade⟩ := hof att hatt
      exact (row_backed (attachment_named hemail hatt) hmade).mp
        (hall row hrow)
    · intro hall row hrow
      obtain ⟨att, hatt, hmade⟩ := hby row hrow
      exact (row_backed (attachment_named hemail hatt) hmade).mpr
        (hall att hatt)
  rw [← hbacked]
  constructor
  · rintro ⟨p, hp, honly⟩
    exact (hanchored p hp).onlyStored_iff.mp honly
  · intro hcondition
    obtain ⟨p, hp⟩ : Succeeds
        (buildArtifactAnchorProjection rt tx artifacts sessionId) :=
      succeeds_bind.mpr ⟨keys, hkeys, succeeds_ok⟩
    exact ⟨p, hp, (hanchored p hp).onlyStored_iff.mpr hcondition⟩

-- =============================================================== scenarios

section Scenarios

/-- A session with a message of one attachment, and one artifact. -/
def fileSources (att : Attachment) (key : String) : Inventory.Sources where
  db :=
    { Db.empty with
      jobs := ⟨[{ id := 1, ingestionItemId := 1, state := .processing
                  priority := 0, attempts := 1, lastError := none
                  errorKind := none, dispatchedAt := none
                  processingStartedAt := none, finishedAt := none
                  currentSessionId := some 1, ownerUserId := "u1"
                  createdAt := 0, updatedAt := 0 }], by decide⟩
      sessions := ⟨[{ id := 1, jobId := 1, threadId := "1"
                      kind := .primary, parentSessionId := none
                      branchFromRunId := none
                      branchFromCheckpointId := none, status := .running
                      interruptKind := none, activeInterruptId := none
                      messageCount := 0, lastActivityAt := none
                      ownerUserId := "u1", createdAt := 0 }], by decide⟩
      artifacts := ⟨[{ id := 5, sessionId := 1, runId := none
                       producer := "extract", kind := "data", key := key
                       version := 1, mime := "application/json"
                       storage := .inline
                       contentInline := some (.obj [("summary",
                         .str "read")]), blobRef := none, checksum := ""
                       sizeBytes := 19, metadata := .null
                       supersedesArtifactId := none, isLatest := true
                       createdBy := none }], List.nodup_singleton _⟩ }
  blobs := fun _ => none
  emails := fun _ => some
    { providerMessageId := none, providerThreadId := none
      fromAddr := some "ann@x.org", title := some "Files"
      receivedAt := none, bodyText := some "Attached."
      attachments := [att] }

/-- The email of the session. -/
def fileEmail (att : Attachment) : Inventory.SessionEmail :=
  { messageId := none, threadId := none, fromAddr := some "ann@x.org"
    subject := some "Files", receivedAt := none, bodyText := "Attached."
    attachments := [att] }

/-- The bundle of the session. -/
def fileBundle (key : String) (inventory : Attributes) : Attributes :=
  [(key, .obj [("summary", .str "read")]),
    ("analysis/extracted", .obj inventory)]

def lease : Attachment := ⟨7, "lease.pdf", some "application/pdf", none⟩

theorem lease_only_stored :
    ∃ inventory p, buildExtractInventory .sample
        (fileSources lease "extracted_data/lease.pdf") 1 [] = .ok inventory
      ∧ buildArtifactAnchorProjection .sample .sample
        (fileBundle "extracted_data/lease.pdf" inventory) 1 = .ok p
      ∧ OnlyStored (fileBundle "extracted_data/lease.pdf" inventory) 1
        p := by
  have hemail : loadEmailForSession
      (fileSources lease "extracted_data/lease.pdf") 1
        = some (fileEmail lease) := by decide +kernel
  have hok : (buildExtractInventory .sample
      (fileSources lease "extracted_data/lease.pdf") 1 []).isOk := by
    decide +kernel
  have htext : (readArtifactContent .sample
      (fileSources lease "extracted_data/lease.pdf") 1
        "extracted_text/lease.pdf") = .ok none := by decide +kernel
  cases hinv : buildExtractInventory .sample
      (fileSources lease "extracted_data/lease.pdf") 1 [] with
  | error e =>
      rw [hinv] at hok
      cases hok
  | ok inventory =>
      have hbacked : ∀ att ∈ (fileEmail lease).attachments, Backed .sample
          (fileSources lease "extracted_data/lease.pdf") 1
          (fileBundle "extracted_data/lease.pdf" inventory) att := by
        intro att hatt
        have hatt : att = lease := List.mem_singleton.mp hatt
        subst hatt
        refine ⟨fun _ => List.mem_cons_self, fun hfound => ?_⟩
        have hfound := (found_iff htext).mp hfound
        cases hfound
      have hstored : getMember
          (fileBundle "extracted_data/lease.pdf" inventory)
            "analysis/extracted" = some (.obj inventory) := rfl
      obtain ⟨p, hp, honly⟩ := (only_stored_iff hemail hinv hstored).mpr
        ⟨hbacked, fun v hv => (by cases hv)⟩
      exact ⟨inventory, p, rfl, hp, honly⟩

def photo : Attachment := ⟨7, "photo.png", some "image/png", none⟩

/-- A photo that was looked at has a document of data that no one
extracted. -/
theorem photo_has_phantom :
    ¬ ∀ src email artifacts inventory,
      loadEmailForSession src 1 = some email →
        buildExtractInventory .sample src 1 [] = .ok inventory →
        getMember artifacts "analysis/extracted"
            = some (.obj inventory) →
          ∃ p, buildArtifactAnchorProjection .sample .sample artifacts 1
              = .ok p
            ∧ OnlyStored artifacts 1 p := by
  intro h
  have hemail : loadEmailForSession
      (fileSources photo "image_analysis/photo.png") 1
        = some (fileEmail photo) := by decide +kernel
  have hdocs : (buildExtractInventory .sample
      (fileSources photo "image_analysis/photo.png") 1 []).map
        (fun inventory => (buildArtifactAnchorProjection .sample .sample
          (fileBundle "image_analysis/photo.png" inventory) 1).map
            (·.documentKeys))
      = .ok (.ok ["artifact:1:analysis/extracted",
        "artifact:1:extracted_data/photo.png",
        "artifact:1:image_analysis/photo.png"]) := by decide +kernel
  cases hinv : buildExtractInventory .sample
      (fileSources photo "image_analysis/photo.png") 1 [] with
  | error e =>
      rw [hinv] at hdocs
      cases hdocs
  | ok inventory =>
      obtain ⟨p, hp, honly⟩ := h _ _
        (fileBundle "image_analysis/photo.png" inventory) inventory hemail
        hinv rfl
      rw [hinv] at hdocs
      injection hdocs with hdocs
      dsimp only at hdocs
      rw [hp] at hdocs
      injection hdocs with hdocs
      have hphantom : "artifact:1:extracted_data/photo.png"
          ∈ p.documentKeys := by
        have hdocs : p.documentKeys = _ := hdocs
        rw [hdocs]
        simp
      obtain ⟨key, hkey, -, hsame⟩ := (honly.exact _).mp hphantom
      have hkey : key = "image_analysis/photo.png"
          ∨ key = "analysis/extracted" := by
        simpa [fileBundle] using hkey
      rcases hkey with rfl | rfl
      · exact absurd hsame (by decide +kernel)
      · exact absurd hsame (by decide +kernel)

end Scenarios

end LegalBot.Memory
