/-
The parent of an item, and what indexing does for it.

# Where a parent comes from

`parentItem_cases`: a reference of the item resolves to it, or no
reference resolves and it is the first other item of the thread. Either
way it is an item of the same owner (`parentItem_mem`).

# What indexing does to Email entities

`Indexed.attributes` gives the attributes of every Email entity after a
call, in terms of those before: the parent's are replaced by the stub,
the item's own by its own, the others stay. `Indexed.replies` gives the
`REPLIES_TO` edge it adds.
-/
import LegalBot.Memory.Histories

namespace LegalBot.Memory

open Programs (Returns returns_ok)

-- ==================================================================== keys

theorem itemKey_injective {id id' : Uuid}
    (h : ingestionItemCanonicalKey id = ingestionItemCanonicalKey id') :
    id = id' := by
  have hid : toString id = toString id' :=
    (String.append_right_inj "ingestion_item:").mp h
  have hdigits := congrArg (fun s => Nat.ofDigitChars 10 s.toList 0) hid
  simpa using hdigits

/-- An item is told by the key of its entity. -/
theorem emailKey_injective {src : Sources} {i j : IngestionItem}
    (hi : i ∈ src.items.rows) (hj : j ∈ src.items.rows)
    (h : i.emailKey = j.emailKey) : i = j :=
  List.inj_on_of_nodup_map src.items.nodup hi hj
    (itemKey_injective (congrArg EntityKey.canonicalKey h))

-- ================================================================= parents

section Parents

variable {src : Sources} {item parent : IngestionItem} {owner ref : String}
  {refs : List String}

/-- One of the owner's items that meet a condition. -/
theorem itemWhere_mem {P : IngestionItem → Prop} [DecidablePred P]
    {o : Option IngestionItem}
    (h : scalarOneOrNone (src.items.rows.filter fun i =>
      i.ownerUserId = owner ∧ P i) = .ok o) :
    ∀ i, o = some i → i ∈ src.items.rows ∧ i.ownerUserId = owner := by
  rintro i rfl
  have hmem : i ∈ src.items.rows.filter fun i =>
      i.ownerUserId = owner ∧ P i := by
    rw [scalarOneOrNone_ok h]
    exact List.mem_singleton_self _
  obtain ⟨hmem, hcond⟩ := List.mem_filter.mp hmem
  exact ⟨hmem, (of_decide_eq_true hcond).1⟩

theorem findItemByMessageRef_mem :
    Returns (findItemByMessageRef src owner ref) (fun o => ∀ i,
      o = some i → i ∈ src.items.rows ∧ i.ownerUserId = owner) := by
  unfold findItemByMessageRef
  split
  · exact returns_ok (fun _ h => by cases h)
  · refine Returns.bind (S := fun o => ∀ i, o = some i →
      i ∈ src.items.rows ∧ i.ownerUserId = owner) ?_ ?_
    · exact fun o ho => itemWhere_mem ho
    · intro o ho
      cases o with
      | some i => exact returns_ok ho
      | none => exact fun o ho => itemWhere_mem ho

theorem findReplied_cases :
    Returns (findReplied src owner refs) (fun o => ∀ i, o = some i →
      ∃ ref ∈ refs, findItemByMessageRef src owner ref = .ok (some i)) := by
  induction refs with
  | nil => exact returns_ok (fun _ h => by cases h)
  | cons ref rest ih =>
      unfold findReplied
      refine Returns.bind
        (S := fun o => findItemByMessageRef src owner ref = .ok o)
        (fun o ho => ho) ?_
      intro o ho
      cases o with
      | some i =>
          refine returns_ok fun j hj => ?_
          cases hj
          exact ⟨ref, List.mem_cons_self, ho⟩
      | none =>
          intro o hrest i hi
          obtain ⟨r, hr, hfound⟩ := ih o hrest i hi
          exact ⟨r, List.mem_cons_of_mem _ hr, hfound⟩

theorem threadParent_mem {detail : EmailMetadata}
    (h : threadParent src item detail = some parent) :
    parent ∈ src.items.rows ∧ parent.ownerUserId = item.ownerUserId := by
  unfold threadParent at h
  simp only at h
  split at h
  · cases h
  · obtain ⟨hmem, hcond⟩ := List.mem_filter.mp (List.argmin_mem h)
    exact ⟨hmem, (of_decide_eq_true hcond).1⟩

/-- A parent is found by a reference, or in the thread when no reference
finds one. -/
theorem parentItem_cases
    (h : parentItem src item = .ok (some parent)) :
    ∃ detail, item.emailMetadata = some detail
      ∧ ((∃ ref ∈ replyCandidates detail,
          findItemByMessageRef src item.ownerUserId ref
            = .ok (some parent))
        ∨ (findReplied src item.ownerUserId (replyCandidates detail)
            = .ok none
          ∧ threadParent src item detail = some parent)) := by
  unfold parentItem at h
  cases hdetail : item.emailMetadata with
  | none =>
      rw [hdetail] at h
      cases h
  | some detail =>
      refine ⟨detail, rfl, ?_⟩
      rw [hdetail] at h
      cases hfind : findReplied src item.ownerUserId
          (replyCandidates detail) with
      | error e =>
          simp only [hfind] at h
          cases h
      | ok o =>
          simp only [hfind] at h
          cases o with
          | some i =>
              cases h
              exact Or.inl (findReplied_cases _ hfind _ rfl)
          | none =>
              injection h with h
              exact Or.inr ⟨rfl, h⟩

/-- A parent is an item of the same owner. -/
theorem parentItem_mem (h : parentItem src item = .ok (some parent)) :
    parent ∈ src.items.rows ∧ parent.ownerUserId = item.ownerUserId := by
  obtain ⟨detail, -, ⟨ref, -, hfound⟩ | ⟨-, hthread⟩⟩ :=
    parentItem_cases h
  · exact findItemByMessageRef_mem _ hfound parent rfl
  · exact threadParent_mem hthread

theorem parentKey_eq (h : parentItem src item = .ok (some parent)) :
    item.parentKey parent = parent.emailKey := by
  unfold IngestionItem.parentKey IngestionItem.emailKey
  rw [(parentItem_mem h).2]

end Parents

-- ================================================================= effects

section Effects

variable {env : GraphEnv} {g g' g₁ g₂ : Graph} {k : EntityKey}
  {item : IngestionItem} {parent : Option IngestionItem}
  {email : KgEntity}

/-- The attributes of the entity of a key. -/
def Graph.attributesOf (g : Graph) (k : EntityKey) : Option Attributes :=
  (g.row k).map (·.attributes)

theorem attributesOf_entity (h : g.Valid env) {k' : EntityKey}
    {name : String} {attrs : Attributes} :
    ((GraphWrite.entity k name attrs).apply env g).attributesOf k'
      = if k' = k then some attrs else g.attributesOf k' := by
  unfold Graph.attributesOf
  rw [row_apply_entity h]
  by_cases hk : k' = k
  · rw [if_pos hk, if_pos hk]
    cases g.row k <;> rfl
  · rw [if_neg hk, if_neg hk]

theorem attributesOf_other {w : GraphWrite}
    (h : ∀ k name attrs, w ≠ .entity k name attrs) :
    (w.apply env g).attributesOf k = g.attributesOf k := by
  unfold Graph.attributesOf Graph.row
  rw [entities_apply h]

/-- Persons and attachments leave the Email entities. -/
theorem attributesOf_plain {owner : String} (h : g.Valid env)
    (hwrites : Writes env (PlainWrite env owner) g g')
    (hk : k.type = .email) : g'.attributesOf k = g.attributesOf k := by
  have hkept := hwrites.invariant
    (I := fun g' => g'.Valid env ∧ g'.attributesOf k = g.attributesOf k)
    ⟨h, rfl⟩ ?_
  · exact hkept.2
  · rintro g' w ⟨hv, hsame⟩ - hw
    refine ⟨hv.apply, ?_⟩
    by_cases hent : ∃ k name attrs, w = .entity k name attrs
    · obtain ⟨k', name, attrs, rfl⟩ := hent
      rw [attributesOf_entity hv, if_neg, hsame]
      rintro rfl
      rcases hw.2 with ⟨htype, -⟩ | ⟨htype, -⟩ <;>
        · rw [hk] at htype
          cases htype
    · rw [attributesOf_other fun k' name attrs hw =>
        hent ⟨k', name, attrs, hw⟩, hsame]

/-- The attributes of an Email entity after a call. -/
def attributesAfter (item : IngestionItem) (parent : Option IngestionItem)
    (g : Graph) (k : EntityKey) : Option Attributes :=
  let own := if k = item.emailKey then some item.emailAttrs
    else g.attributesOf k
  match parent with
  | some p => if k = item.parentKey p then some p.stubAttrs else own
  | none => own

theorem Indexed.attributes
    (hi : Indexed env item parent g g' email g₁ g₂) (h : g.Valid env)
    (hk : k.type = .email) :
    g'.attributesOf k = attributesAfter item parent g k := by
  have h₁ := hi.first.valid h
  have h₂ := (hi.before h).valid h₁
  have hmiddle : g₂.attributesOf k
      = if k = item.emailKey then some item.emailAttrs
        else g.attributesOf k := by
    rw [attributesOf_plain h₁.apply hi.plain hk,
      attributesOf_other (by simp), hi.upserted, attributesOf_entity h]
  rw [hi.parent]
  cases parent with
  | none => exact hmiddle
  | some p =>
      have hstub : (parentUpsert env item p g₂).attributesOf k
          = if k = item.parentKey p then some p.stubAttrs
            else g₂.attributesOf k := attributesOf_entity h₂
      rw [hmiddle] at hstub
      simp only [parentWrites]
      split
      · exact hstub
      · split
        · exact hstub
        · exact (attributesOf_other (by simp)).trans hstub

theorem edges_other {w : GraphWrite} (h : ∀ row, w ≠ .edge row)
    {e : KgEdge} (he : e ∈ (w.apply env g).edges) : e ∈ g.edges :=
  (mem_edges_apply he).resolve_right (h e)

/-- Writes of other edges leave the replies. -/
theorem replies_kept {P : GraphWrite → Prop} (h : Writes env P g g')
    (hP : ∀ e, P (.edge e) → e.relation ≠ .repliesTo) :
    ∀ e ∈ g'.edges, e.relation = .repliesTo → e ∈ g.edges := by
  refine h.invariant (I := fun g' => ∀ e ∈ g'.edges,
    e.relation = .repliesTo → e ∈ g.edges) (fun _ he _ => he) ?_
  intro g' w hI _ hw e he hrelation
  rcases mem_edges_apply he with hold | rfl
  · exact hI e hold hrelation
  · exact absurd hrelation (hP e hw)

/-- A reply a call adds is from the item to its parent. -/
theorem Indexed.replies
    (hi : Indexed env item parent g g' email g₁ g₂) :
    ∀ e ∈ g'.edges, e.relation = .repliesTo → e ∈ g.edges
      ∨ ∃ p row, parent = some p
        ∧ g'.row (item.parentKey p) = some row
        ∧ e.srcId = email.id ∧ e.dstId = row.id := by
  have hbefore : ∀ e ∈ g₂.edges, e.relation = .repliesTo →
      e ∈ g.edges := by
    intro e he hrelation
    have hmention := replies_kept hi.plain (fun _ hw => hw.2) e he
      hrelation
    have hfirst : e ∈ g₁.edges := edges_other (by simp) hmention
    rw [hi.upserted] at hfirst
    exact edges_other (by simp) hfirst
  intro e he hrelation
  rw [hi.parent] at he ⊢
  cases parent with
  | none => exact Or.inl (hbefore e he hrelation)
  | some p =>
      have hstub : e ∈ (parentUpsert env item p g₂).edges → e ∈ g.edges :=
        fun he => hbefore e (edges_other (by simp) he) hrelation
      simp only [parentWrites] at he ⊢
      cases hrow : (parentUpsert env item p g₂).row
          (item.parentKey p) with
      | none =>
          rw [hrow] at he
          exact Or.inl (hstub he)
      | some row =>
          rw [hrow] at he
          simp only at he ⊢
          by_cases hid : row.id = email.id
          · rw [if_pos hid] at he
            exact Or.inl (hstub he)
          · rw [if_neg hid] at he ⊢
            refine (mem_edges_apply he).imp hstub fun hadded => ?_
            injection hadded with hadded
            refine ⟨p, row, rfl, ?_, ?_, ?_⟩
            · unfold Graph.row
              rw [entities_apply (by simp)]
              exact hrow
            · rw [← hadded]
              rfl
            · rw [← hadded]
              rfl

end Effects

end LegalBot.Memory
