/-
What indexing one item does to the Email entity of another.

# Two upserts

An item's own call gives its entity all its attributes; the call of a
reply gives the parent's entity the subject alone, and an upsert replaces
what is there. So an entity has what the last call that upserts it gives
it (`indexItems_attributes`), and that is the item's own attributes when
that call does not find the item as its parent.

# When nothing is lost

`email_entities_kept_iff`: a call leaves another item's entity alone
exactly when it does not find that item as the parent; after a list of
items every entity has its own attributes exactly when each was last
upserted by such a call.
-/
import LegalBot.Memory.Parents

namespace LegalBot.Memory

-- ============================================================== statements

/-- The call of `i` finds `j` as the parent. -/
def isParent (src : Sources) (j i : IngestionItem) : Bool :=
  match parentItem src i with
  | .ok (some p) => p = j
  | _ => false

/-- The call of `i` upserts the entity of `j`. -/
def upserts (src : Sources) (j i : IngestionItem) : Bool :=
  match parentItem src i with
  | .ok parent => i = j || parent = some j
  | .error _ => false

/-- The attributes it gives it. -/
def givenTo (src : Sources) (j i : IngestionItem) : Attributes :=
  if isParent src j i then j.stubAttrs else j.emailAttrs

/-- Index the items of a list. -/
def indexItems (env : GraphEnv) (src : Sources)
    (items : List IngestionItem) (g : Graph) : Graph :=
  items.foldl (fun g i => committed (indexIngestionItem env src i.id) g) g

/-- The last call of a list that upserts an item's entity does not find
the item as its parent; if none does, the entity was as it should be. -/
def LastUpsertFull (src : Sources) (g : Graph)
    (items : List IngestionItem) (j : IngestionItem) : Prop :=
  match (items.filter (upserts src j)).getLast? with
  | some i => parentItem src i ≠ .ok (some j)
  | none => g.attributesOf j.emailKey = some j.emailAttrs

-- ================================================================== calls

section Calls

variable {env : GraphEnv} {src : Sources} {g : Graph}
  {i j : IngestionItem} {items : List IngestionItem}

theorem isParent_iff :
    isParent src j i = true ↔ parentItem src i = .ok (some j) := by
  unfold isParent
  split
  · rename_i p hparent
    rw [hparent, decide_eq_true_iff]
    exact ⟨fun h => h ▸ rfl, fun h => by injections⟩
  · rename_i hnot
    exact ⟨(fun h => by cases h), fun h => absurd h (hnot j)⟩

theorem stub_ne_full : j.stubAttrs ≠ j.emailAttrs := by
  simp [IngestionItem.stubAttrs, IngestionItem.emailAttrs]

theorem givenTo_full :
    givenTo src j i = j.emailAttrs ↔ parentItem src i ≠ .ok (some j) := by
  unfold givenTo
  by_cases hparent : isParent src j i = true
  · rw [if_pos hparent]
    exact ⟨fun h => absurd h stub_ne_full,
      fun h => absurd (isParent_iff.mp hparent) h⟩
  · rw [if_neg hparent]
    exact ⟨fun _ h => hparent (isParent_iff.mpr h), fun _ => rfl⟩

/-- One call. -/
theorem index_attributes (h : g.Valid env) (hi : i ∈ src.items.rows)
    (hj : j ∈ src.items.rows) :
    (committed (indexIngestionItem env src i.id) g).attributesOf j.emailKey
      = if upserts src j i then some (givenTo src j i)
        else g.attributesOf j.emailKey := by
  have hitem : src.items.get i.id = some i := Relational.Table.get_of_mem hi
  unfold indexIngestionItem upserts givenTo isParent
  rw [hitem]
  cases hparent : parentItem src i with
  | error e =>
      have hsame : committed (indexItem env src i) g = g := by
        refine (committed_of_wlp (indexItem_error hparent)).resolve_right ?_
        rintro ⟨_, _, ⟨⟩⟩
      simp only [hsame]
      rfl
  | ok parent =>
      obtain ⟨_, -, email, g₁, g₂, hindexed, -⟩ :=
        committed_of_wp (indexItem_wp h hparent)
      have hkey : ∀ {p : IngestionItem}, p ∈ src.items.rows →
          (j.emailKey = p.emailKey ↔ p = j) := fun hp =>
        ⟨fun h => (emailKey_injective hj hp h).symm, fun h => h ▸ rfl⟩
      have hafter := hindexed.attributes h (k := j.emailKey) rfl
      simp only [hafter, attributesAfter]
      cases parent with
      | none =>
          by_cases hij : i = j <;> simp [hkey hi, hij]
      | some p =>
          simp only [parentKey_eq hparent, hkey (parentItem_mem hparent).1,
            hkey hi]
          by_cases hp : p = j <;> by_cases hij : i = j <;>
            simp [hp, hij]

theorem indexItems_valid (h : g.Valid env) :
    (indexItems env src items g).Valid env := by
  induction items generalizing g with
  | nil => exact h
  | cons i rest ih =>
      exact ih (apply_valid (a := .item i.id) (s := ⟨src, g⟩) h)

/-- A list of calls. -/
theorem indexItems_attributes (h : g.Valid env)
    (hitems : ∀ i ∈ items, i ∈ src.items.rows)
    (hj : j ∈ src.items.rows) :
    (indexItems env src items g).attributesOf j.emailKey
      = match (items.filter (upserts src j)).getLast? with
        | some i => some (givenTo src j i)
        | none => g.attributesOf j.emailKey := by
  induction items using List.reverseRecOn with
  | nil => rfl
  | append_singleton rest i ih =>
      have hrest := ih fun x hx => hitems x (List.mem_append_left _ hx)
      have hi : i ∈ src.items.rows :=
        hitems i (List.mem_append_right _ (List.mem_singleton_self _))
      have hlast : indexItems env src (rest ++ [i]) g
          = committed (indexIngestionItem env src i.id)
            (indexItems env src rest g) := List.foldl_append
      rw [hlast, index_attributes (indexItems_valid h) hi hj,
        List.filter_append]
      by_cases hup : upserts src j i = true
      · rw [if_pos hup, List.filter_cons_of_pos hup, List.filter_nil,
          List.getLast?_concat]
      · rw [if_neg hup, List.filter_cons_of_neg hup, List.filter_nil,
          List.append_nil]
        exact hrest

end Calls

-- =========================================================== what is kept

/-- A call leaves another item's entity alone exactly when it does not
find that item as its parent, and a list of calls leaves every item's
entity with its own attributes exactly when each was last upserted by
such a call. -/
theorem email_entities_kept_iff (env : GraphEnv) {s : GraphState}
    (hs : GraphReaches env Lts.Always s) :
    (∀ i ∈ s.sources.items.rows, ∀ j ∈ s.sources.items.rows,
      i ≠ j → i.ownerUserId = j.ownerUserId →
      s.graph.attributesOf j.emailKey = some j.emailAttrs →
      ((committed (indexIngestionItem env s.sources i.id)
          s.graph).attributesOf j.emailKey
          = s.graph.attributesOf j.emailKey
        ↔ parentItem s.sources i ≠ .ok (some j)))
    ∧ ∀ items, (∀ i ∈ items, i ∈ s.sources.items.rows) →
      ((∀ j ∈ items, (indexItems env s.sources items
          s.graph).attributesOf j.emailKey = some j.emailAttrs)
        ↔ ∀ j ∈ items, LastUpsertFull s.sources s.graph items j) := by
  have hv := reaches_valid hs
  constructor
  · intro i hi j hj hne _ hfull
    rw [index_attributes hv hi hj, hfull]
    by_cases hup : upserts s.sources j i = true
    · rw [if_pos hup, Option.some_inj, givenTo_full]
    · rw [if_neg hup]
      refine ⟨fun _ hparent => hup ?_, fun _ => rfl⟩
      simp [upserts, hparent]
  · intro items hitems
    refine forall₂_congr fun j hj => ?_
    rw [indexItems_attributes hv hitems (hitems j hj)]
    unfold LastUpsertFull
    cases (items.filter (upserts s.sources j)).getLast? with
    | none => rfl
    | some i => exact (Option.some_inj).trans givenTo_full

/-- A message and a reply to it. -/
def Sources.reply : Sources :=
  { Sources.empty with
    items := ⟨[.sample 1 "u1" none none,
      .sample 2 "u1" (some "<m1>") none], by decide⟩ }

/-- Indexing the message leaves the entity of the reply. -/
theorem reply_entity_kept :
    (GraphState.init.after (.sample false)
        [.store .reply, .item 2, .item 1]).graph.attributesOf
          (IngestionItem.sample 2 "u1" (some "<m1>") none).emailKey
      = (GraphState.init.after (.sample false)
        [.store .reply, .item 2]).graph.attributesOf
          (IngestionItem.sample 2 "u1" (some "<m1>") none).emailKey := by
  have hs : GraphReaches (.sample false) Lts.Always
      (GraphState.init.after (.sample false) [.store .reply, .item 2]) :=
    after_reaches .init
  exact ((email_entities_kept_iff (.sample false) hs).1
    (.sample 1 "u1" none none) (by decide +kernel)
    (.sample 2 "u1" (some "<m1>") none) (by decide +kernel)
    (by decide +kernel) rfl (by decide +kernel)).mpr (by decide +kernel)

/-- Indexing the reply leaves the message's entity with a subject only. -/
theorem replied_entity_stripped :
    GraphReaches (.sample false) Lts.Always
        (GraphState.init.after (.sample false) [.store .reply, .item 1])
    ∧ (GraphState.init.after (.sample false)
        [.store .reply, .item 1]).graph.attributesOf
          (IngestionItem.sample 1 "u1" none none).emailKey
      = some (IngestionItem.sample 1 "u1" none none).emailAttrs
    ∧ (GraphState.init.after (.sample false)
        [.store .reply, .item 1, .item 2]).graph.attributesOf
          (IngestionItem.sample 1 "u1" none none).emailKey
      = some [("subject", .str "Lease")] :=
  ⟨after_reaches .init, by decide +kernel, by decide +kernel⟩

end LegalBot.Memory
