/-
`Artifact.content_inline`, a JSONB column.

# What comes back

PostgreSQL keeps the values of such a column, and not their text: a dict
comes back with its members in the order of the column, a number may be
printed another way. `JsonbColumn` is what the services can rely on. It
keeps every dict equal as Python compares dicts, where the order of the
members does not count; `str()` of a dict shows it.

# The order

The members of a stored dict stand by the length of their keys, keys of
one length by their bytes (`sortedColumn`).
-/
import LegalBot.Artifacts.Service
import LegalBot.Json.Members
import LegalBot.Json.Sizes
import Mathlib.Data.String.Basic

namespace LegalBot

open Json (getMember truthy textSize)

-- =================================================================== columns

/-- What a JSONB column gives back of a value. -/
structure JsonbColumn where
  get : Json → Json
  null : get .null = .null
  bool : ∀ b, get (.bool b) = .bool b
  int : ∀ n, get (.int n) = .int n
  float : ∀ r, get (.float r) ≠ .null
    ∧ truthy (get (.float r)) = truthy (.float r)
  str : ∀ s, get (.str s) = .str s
  arr : ∀ xs, get (.arr xs) = .arr (xs.map get)
  /-- The same keys, each with what the column makes of its value. -/
  obj : ∀ ms, ∃ ms', get (.obj ms) = .obj ms'
    ∧ ∀ k, getMember ms' k = (getMember ms k).map get
  /-- What was read is stored as it is. -/
  again : ∀ v, get (get v) = get v

/-- A row as the database returns it. -/
def Artifact.stored (column : JsonbColumn) (r : Artifact) : Artifact :=
  { r with contentInline := r.contentInline.map column.get }

section Laws

variable {column : JsonbColumn} {v : Json} {ms : List (String × Json)}

theorem JsonbColumn.get_eq_null : column.get v = .null ↔ v = .null := by
  cases v with
  | null => exact iff_of_true column.null rfl
  | bool b => simp [column.bool]
  | int n => simp [column.int]
  | float r => simp [(column.float r).1]
  | str s => simp [column.str]
  | arr xs => simp [column.arr]
  | obj ms =>
      obtain ⟨ms', hms', -⟩ := column.obj ms
      simp [hms']

/-- A value stays true or false. -/
theorem JsonbColumn.truthy_get : truthy (column.get v) = truthy v := by
  cases v with
  | null => rw [column.null]
  | bool b => rw [column.bool]
  | int n => rw [column.int]
  | float r => exact (column.float r).2
  | str s => rw [column.str]
  | arr xs =>
      rw [column.arr]
      cases xs <;> rfl
  | obj ms =>
      obtain ⟨ms', hms', hget⟩ := column.obj ms
      rw [hms']
      cases ms with
      | nil =>
          cases ms' with
          | nil => rfl
          | cons m rest =>
              have hm := hget m.1
              rw [Json.getMember_cons, if_pos rfl] at hm
              cases hm
      | cons m rest =>
          cases ms' with
          | nil =>
              have hm := hget m.1
              rw [Json.getMember_cons, if_pos rfl] at hm
              cases hm
          | cons m' rest' => rfl

/-- The members of what was read are stored as they are. -/
theorem JsonbColumn.get_member {k : String} {w : Json}
    (hread : column.get w = .obj ms) (h : getMember ms k = some v) :
    column.get v = v := by
  obtain ⟨ms', hms', hget⟩ := column.obj ms
  have hsame : Json.obj ms' = .obj ms := by
    rw [← hms', ← hread, column.again]
  injection hsame with hsame
  have hk := hget k
  rw [hsame, h] at hk
  exact (Option.some.inj hk).symm

@[simp] theorem Artifact.stored_stored (r : Artifact) :
    (r.stored column).stored column = r.stored column := by
  unfold Artifact.stored
  rw [Option.map_map]
  congr 1
  exact congrArg (Option.map · r.contentInline)
    (funext fun v => column.again v)

end Laws

-- ===================================================================== order

/-- The order of the keys in a column. -/
def KeyBefore (m m' : String × Json) : Prop :=
  textSize m.1 < textSize m'.1
    ∨ textSize m.1 = textSize m'.1 ∧ m.1 ≤ m'.1

instance (m m' : String × Json) : Decidable (KeyBefore m m') := by
  unfold KeyBefore
  infer_instance

mutual

/-- A value with the members of its dicts in that order. -/
def sortedValue : Json → Json
  | .arr xs => .arr (sortedItems xs)
  | .obj ms => .obj ((sortedMembers ms).insertionSort KeyBefore)
  | v => v

/-- The items of a list, so ordered. -/
def sortedItems : List Json → List Json
  | [] => []
  | x :: rest => sortedValue x :: sortedItems rest

/-- The values of a dict, so ordered. -/
def sortedMembers : List (String × Json) → List (String × Json)
  | [] => []
  | (k, v) :: rest => (k, sortedValue v) :: sortedMembers rest

end

section Order

variable {ms : List (String × Json)} {m m' m'' : String × Json}

theorem keyBefore_refl (m : String × Json) : KeyBefore m m :=
  Or.inr ⟨rfl, le_refl _⟩

theorem keyBefore_total (m m' : String × Json) :
    KeyBefore m m' ∨ KeyBefore m' m := by
  unfold KeyBefore
  rcases Nat.lt_trichotomy (textSize m.1) (textSize m'.1)
    with hlt | heq | hgt
  · exact Or.inl (Or.inl hlt)
  · exact (le_total m.1 m'.1).imp (fun h => Or.inr ⟨heq, h⟩)
      fun h => Or.inr ⟨heq.symm, h⟩
  · exact Or.inr (Or.inl hgt)

theorem keyBefore_trans (h : KeyBefore m m') (h' : KeyBefore m' m'') :
    KeyBefore m m'' := by
  unfold KeyBefore at h h' ⊢
  rcases h with h | ⟨heq, h⟩
  · rcases h' with h' | ⟨heq', -⟩
    · exact Or.inl (h.trans h')
    · exact Or.inl (heq' ▸ h)
  · rcases h' with h' | ⟨heq', h'⟩
    · exact Or.inl (heq ▸ h')
    · exact Or.inr ⟨heq.trans heq', h.trans h'⟩

instance : Std.Total KeyBefore := ⟨keyBefore_total⟩

instance : IsTrans (String × Json) KeyBefore :=
  ⟨fun _ _ _ => keyBefore_trans⟩

theorem sortedItems_eq (xs : List Json) :
    sortedItems xs = xs.map sortedValue := by
  induction xs with
  | nil => rfl
  | cons x rest ih =>
      rw [sortedItems, ih]
      rfl

theorem sortedMembers_eq (ms : List (String × Json)) :
    sortedMembers ms = ms.map fun m => (m.1, sortedValue m.2) := by
  induction ms with
  | nil => rfl
  | cons m rest ih =>
      rw [sortedMembers, ih]
      rfl

/-- A key keeps its value where members are put in order. -/
theorem getMember_orderedInsert (k : String) :
    getMember (ms.orderedInsert KeyBefore m) k = getMember (m :: ms) k := by
  induction ms with
  | nil => rfl
  | cons m' rest ih =>
      rw [List.orderedInsert_cons]
      by_cases hbefore : KeyBefore m m'
      · rw [if_pos hbefore]
      · have hne : m.1 ≠ m'.1 := fun e =>
          hbefore (Or.inr ⟨congrArg textSize e, le_of_eq e⟩)
        rw [if_neg hbefore, Json.getMember_cons, ih, Json.getMember_cons,
          Json.getMember_cons, Json.getMember_cons]
        by_cases hk : m.1 = k
        · rw [if_pos hk, if_pos hk, if_neg fun e => hne (hk.trans e.symm)]
        · rw [if_neg hk, if_neg hk]

theorem getMember_insertionSort (k : String) :
    getMember (ms.insertionSort KeyBefore) k = getMember ms k := by
  induction ms with
  | nil => rfl
  | cons m rest ih =>
      rw [List.insertionSort_cons, getMember_orderedInsert,
        Json.getMember_cons, Json.getMember_cons, ih]

theorem getMember_sortedMembers (k : String) :
    getMember (sortedMembers ms) k = (getMember ms k).map sortedValue := by
  rw [sortedMembers_eq]
  induction ms with
  | nil => rfl
  | cons m rest ih =>
      rw [List.map_cons, Json.getMember_cons, Json.getMember_cons, ih]
      split
      · rfl
      · rfl

/-- The order looks at the keys only. -/
theorem sortedMembers_insertionSort :
    sortedMembers (ms.insertionSort KeyBefore)
      = (sortedMembers ms).insertionSort KeyBefore := by
  rw [sortedMembers_eq, sortedMembers_eq]
  exact List.map_insertionSort _ _ _ _ fun _ _ _ _ => Iff.rfl

mutual

theorem sortedValue_again :
    (v : Json) → sortedValue (sortedValue v) = sortedValue v
  | .null | .bool _ | .int _ | .float _ | .str _ => rfl
  | .arr xs => by
      rw [sortedValue, sortedValue, sortedItems_again xs]
  | .obj ms => by
      rw [sortedValue, sortedValue, sortedMembers_insertionSort,
        sortedMembers_again ms,
        (List.pairwise_insertionSort KeyBefore _).insertionSort_eq]

theorem sortedItems_again :
    (xs : List Json) → sortedItems (sortedItems xs) = sortedItems xs
  | [] => rfl
  | x :: rest => by
      rw [sortedItems, sortedItems, sortedValue_again x,
        sortedItems_again rest]

theorem sortedMembers_again :
    (ms : List (String × Json)) →
      sortedMembers (sortedMembers ms) = sortedMembers ms
  | [] => rfl
  | (k, v) :: rest => by
      rw [sortedMembers, sortedMembers, sortedValue_again v,
        sortedMembers_again rest]

end

end Order

/-- The column with its members in order. -/
def sortedColumn : JsonbColumn where
  get := sortedValue
  null := rfl
  bool := fun _ => rfl
  int := fun _ => rfl
  float := fun _ => ⟨fun h => (by cases h), rfl⟩
  str := fun _ => rfl
  arr := fun xs => congrArg Json.arr (sortedItems_eq xs)
  obj := fun ms => ⟨_, rfl, fun k => by
    rw [getMember_insertionSort, getMember_sortedMembers]⟩
  again := sortedValue_again

end LegalBot
