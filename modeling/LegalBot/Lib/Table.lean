/-
Relational tables with a primary key, as a value type that cannot hold
two rows under one key.

# The operations

A `Table` is a list of rows in insertion order whose keys are pairwise
distinct; the proof is a field, so no later lemma re-establishes it.

- `get` is the primary-key lookup (`SELECT … WHERE id = k`);
- `insert` appends a row and fails on a key already present;
- `updateWhere` is `UPDATE … SET … WHERE p`: it rewrites the rows that
  satisfy `p` by a key-preserving function and leaves the others;
- `erase` removes the row of a key.

# The lookup algebra

Everything a client proof needs is stated on `get`: `get_insert` and
`get_updateWhere` say what a lookup sees after a write, `mem_rows` says
that a lookup and a scan agree. Client invariants quantify over keys and
rewrite with these; none of them opens the row list.

# How a table evolves

`Evolves R B t t'` is a two-state invariant of a table: every row of `t`
is still there, related to its old self by `R`, and every row that is
new in `t'` satisfies `B`. Nothing is ever deleted under it. A client
states what a transaction may do to a table as one `Evolves` fact, built
from `refl`, `trans`, `insert` and `updateWhere`.
-/
import Mathlib.Data.Finset.Card
import Mathlib.Data.List.Nodup
import Mathlib.Data.List.Basic
import Mathlib.Tactic.Common

namespace Relational

universe u v w

/-- A row type with a primary key. -/
class HasKey (ρ : Type u) (κ : outParam (Type v)) where
  /-- The row's primary key. -/
  key : ρ → κ

/-- The side condition of a key-preserving update: a record update that
leaves the key column alone proves it by `rfl`. -/
theorem keyKept {α : Type u} {a b : α} (h : a = b) : a = b := h

/-- A table: rows in insertion order, keys pairwise distinct. -/
structure Table (ρ : Type u) {κ : Type v} [HasKey ρ κ] where
  rows : List ρ
  nodup : (rows.map HasKey.key).Nodup

namespace Table

variable {ρ : Type u} {κ : Type v} [HasKey ρ κ]

/-- The table without rows. -/
def empty : Table ρ := ⟨[], List.nodup_nil⟩

/-- Primary-key lookup. -/
def get [DecidableEq κ] (t : Table ρ) (k : κ) : Option ρ :=
  t.rows.find? fun r => HasKey.key r = k

/-- Append a row; a key already present violates the primary key. -/
def insert [DecidableEq κ] (t : Table ρ) (r : ρ) : Option (Table ρ) :=
  if h : HasKey.key r ∈ t.rows.map HasKey.key then none
  else some ⟨t.rows ++ [r], by
    rw [List.map_append, List.nodup_append]
    refine ⟨t.nodup, List.nodup_singleton _, ?_⟩
    intro a ha b hb
    rw [List.map_singleton, List.mem_singleton] at hb
    exact fun e => h (hb ▸ e ▸ ha)⟩

/-- A table with one more, earlier row. -/
def cons (t : Table ρ) (r : ρ)
    (h : HasKey.key r ∉ t.rows.map HasKey.key) : Table ρ :=
  ⟨r :: t.rows, List.nodup_cons.mpr ⟨h, t.nodup⟩⟩

/-- Rewrite the rows that satisfy `p` by a key-preserving function. -/
def updateWhere (t : Table ρ) (p : ρ → Bool) (f : ρ → ρ)
    (hf : ∀ r, HasKey.key (f r) = HasKey.key r := by
      intro _; exact Relational.keyKept rfl) :
    Table ρ :=
  ⟨t.rows.map fun r => if p r then f r else r, by
    have hkeys : (t.rows.map fun r => if p r then f r else r).map
        HasKey.key = t.rows.map (HasKey.key (ρ := ρ)) := by
      rw [List.map_map]
      refine List.map_congr_left fun r _ => ?_
      show HasKey.key (if p r then f r else r) = HasKey.key r
      split
      · exact hf r
      · rfl
    rw [hkeys]
    exact t.nodup⟩

/-- Remove the row stored under a key. -/
def erase [DecidableEq κ] (t : Table ρ) (k : κ) : Table ρ :=
  ⟨t.rows.filter fun r => HasKey.key r ≠ k,
    t.nodup.sublist (List.Sublist.map _ List.filter_sublist)⟩

-- ========================================================= lookup and scan

section Lookup

variable [DecidableEq κ]

/-- A lookup returns a stored row with the key asked for. -/
theorem get_some {t : Table ρ} {k : κ} {r : ρ} (h : t.get k = some r) :
    r ∈ t.rows ∧ HasKey.key r = k :=
  ⟨List.mem_of_find?_eq_some h, by simpa using List.find?_some h⟩

/-- The key of the row a lookup returns. -/
theorem key_of_get {t : Table ρ} {k : κ} {r : ρ} (h : t.get k = some r) :
    HasKey.key r = k := (get_some h).2

/-- Every stored row is found under its own key. -/
theorem get_of_mem {t : Table ρ} {r : ρ} (h : r ∈ t.rows) :
    t.get (HasKey.key r) = some r := by
  cases hg : t.get (HasKey.key r) with
  | none =>
      have hnone := List.find?_eq_none.mp hg r h
      simp at hnone
  | some r' =>
      obtain ⟨hmem, hkey⟩ := get_some hg
      rw [List.inj_on_of_nodup_map t.nodup hmem h hkey]

/-- A scan and a lookup agree. -/
theorem mem_rows {t : Table ρ} {r : ρ} :
    r ∈ t.rows ↔ t.get (HasKey.key r) = some r :=
  ⟨get_of_mem, fun h => (get_some h).1⟩

/-- A key is absent exactly when its lookup fails. -/
theorem get_eq_none {t : Table ρ} {k : κ} :
    t.get k = none ↔ k ∉ t.rows.map HasKey.key := by
  constructor
  · intro h hk
    obtain ⟨r, hr, rfl⟩ := List.mem_map.mp hk
    rw [get_of_mem hr] at h
    cases h
  · intro h
    cases hg : t.get k with
    | none => rfl
    | some r =>
        obtain ⟨hmem, rfl⟩ := get_some hg
        exact absurd (List.mem_map_of_mem hmem) h

@[simp] theorem get_empty (k : κ) : (empty : Table ρ).get k = none := rfl

/-- Keys are only ever inserted fresh. -/
theorem insert_fresh {t t' : Table ρ} {r : ρ} (h : t.insert r = some t') :
    t.get (HasKey.key r) = none := by
  unfold insert at h
  split at h
  · cases h
  · rename_i hnot
    exact get_eq_none.mpr hnot

/-- An insert appends its row. -/
theorem insert_rows {t t' : Table ρ} {r : ρ} (h : t.insert r = some t') :
    t'.rows = t.rows ++ [r] := by
  unfold insert at h
  split at h
  · cases h
  · injection h with h
    rw [← h]

/-- An insert under a fresh key succeeds. -/
theorem insert_of_fresh {t : Table ρ} {r : ρ}
    (h : t.get (HasKey.key r) = none) : ∃ t', t.insert r = some t' := by
  unfold insert
  rw [dif_neg (get_eq_none.mp h)]
  exact ⟨_, rfl⟩

/-- What a lookup sees after an insert. -/
theorem get_insert {t t' : Table ρ} {r : ρ} (h : t.insert r = some t')
    (k : κ) :
    t'.get k = if HasKey.key r = k then some r else t.get k := by
  have hrows := insert_rows h
  have hfresh := insert_fresh h
  unfold get at hfresh ⊢
  rw [hrows, List.find?_append]
  by_cases hk : HasKey.key r = k
  · subst hk
    rw [hfresh, if_pos rfl]
    simp
  · rw [if_neg hk]
    simp [hk]

/-- A row present before an insert is still found after it. -/
theorem get_insert_of_some {t t' : Table ρ} {r r₀ : ρ} {k : κ}
    (h : t.insert r = some t') (hk : t.get k = some r₀) :
    t'.get k = some r₀ := by
  rw [get_insert h k]
  have hne : HasKey.key r ≠ k := by
    rintro rfl
    rw [insert_fresh h] at hk
    cases hk
  rw [if_neg hne, hk]

/-- A row under another key is found as before. -/
theorem get_cons_of_ne {t : Table ρ} {r : ρ}
    {h : HasKey.key r ∉ t.rows.map HasKey.key} {k : κ}
    (hk : HasKey.key r ≠ k) : (t.cons r h).get k = t.get k :=
  List.find?_cons_of_neg (by simpa using hk)

/-- A lookup goes on finding what it found. -/
theorem get_cons_of_some {t : Table ρ} {r r₀ : ρ}
    (h : HasKey.key r ∉ t.rows.map HasKey.key) {k : κ}
    (hk : t.get k = some r₀) : (t.cons r h).get k = some r₀ := by
  have hne : HasKey.key r ≠ k := by
    rintro rfl
    rw [get_eq_none.mpr h] at hk
    cases hk
  rw [get_cons_of_ne hne, hk]

theorem get_cons_self {t : Table ρ} {r : ρ}
    (h : HasKey.key r ∉ t.rows.map HasKey.key) :
    (t.cons r h).get (HasKey.key r) = some r :=
  List.find?_cons_of_pos (by simp)

/-- Two tables that share a row find it alike. -/
theorem get_of_shared {t t' : Table ρ} {r : ρ} {k : κ}
    (h : t.get k = some r) (hmem : r ∈ t.rows → r ∈ t'.rows) :
    t'.get k = some r := by
  obtain ⟨hr, rfl⟩ := get_some h
  exact get_of_mem (hmem hr)

/-- What a lookup sees after an update. -/
@[simp] theorem get_updateWhere (t : Table ρ) (p : ρ → Bool) (f : ρ → ρ)
    (hf : ∀ r, HasKey.key (f r) = HasKey.key r) (k : κ) :
    (t.updateWhere p f hf).get k
      = (t.get k).map fun r => if p r then f r else r := by
  unfold get updateWhere
  simp only
  rw [List.find?_map]
  have hpred : ((fun r => decide (HasKey.key r = k))
      ∘ fun r => if p r then f r else r)
      = fun r : ρ => decide (HasKey.key r = k) := by
    funext r
    show decide (HasKey.key (if p r then f r else r) = k) = _
    split
    · rw [hf]
    · rfl
  rw [hpred]

/-- An update adds no row. -/
theorem get_updateWhere_none {t : Table ρ} {p : ρ → Bool} {f : ρ → ρ}
    {k : κ} (h : t.get k = none)
    (hf : ∀ r, HasKey.key (f r) = HasKey.key r := by
      intro _; exact Relational.keyKept rfl) :
    (t.updateWhere p f hf).get k = none := by
  rw [get_updateWhere, h, Option.map_none]

/-- What a lookup sees after an erase. -/
theorem get_erase (t : Table ρ) (k₀ k : κ) :
    (t.erase k₀).get k = if k = k₀ then none else t.get k := by
  unfold get erase
  rw [List.find?_filter]
  by_cases hk : k = k₀
  · subst hk
    rw [if_pos rfl, List.find?_eq_none]
    intro r _
    simp
  · rw [if_neg hk]
    congr 1
    funext r
    by_cases hr : HasKey.key r = k
    · simp [hr, hk]
    · simp [hr]

/-- The key that was erased is free. -/
theorem notMem_erase (t : Table ρ) (k : κ) :
    k ∉ (t.erase k).rows.map HasKey.key :=
  get_eq_none.mp ((get_erase t k k).trans (if_pos rfl))

end Lookup

-- =========================================================== many inserts

/-- A table is its rows. -/
theorem ext_rows {t t' : Table ρ} (h : t.rows = t'.rows) : t = t' := by
  cases t
  cases t'
  cases h
  rfl

section Bulk

variable [DecidableEq κ]

/-- Insert rows one after the other. -/
def insertAll : List ρ → Table ρ → Option (Table ρ)
  | [], t => some t
  | r :: rest, t =>
      match t.insert r with
      | some t' => insertAll rest t'
      | none => none

theorem insertAll_rows {rs : List ρ} : ∀ {t t' : Table ρ},
    insertAll rs t = some t' → t'.rows = t.rows ++ rs := by
  induction rs with
  | nil =>
      intro t t' h
      injection h with h
      rw [h, List.append_nil]
  | cons r rest ih =>
      intro t t' h
      unfold insertAll at h
      split at h
      · rename_i t₁ hins
        rw [ih h, insert_rows hins, List.append_assoc]
        rfl
      · cases h

/-- They were fresh, and distinct. -/
theorem insertAll_fresh {rs : List ρ} : ∀ {t t' : Table ρ},
    insertAll rs t = some t' →
    (rs.map HasKey.key).Nodup
      ∧ ∀ r ∈ rs, t.get (HasKey.key r) = none := by
  intro t t' h
  have hnodup := t'.nodup
  rw [insertAll_rows h, List.map_append] at hnodup
  obtain ⟨-, hrs, hdisjoint⟩ := List.nodup_append.mp hnodup
  refine ⟨hrs, fun r hr => get_eq_none.mpr fun hk => ?_⟩
  exact hdisjoint _ hk _ (List.mem_map_of_mem hr) rfl

/-- Fresh and distinct rows can be inserted. -/
theorem insertAll_of_fresh {rs : List ρ} : ∀ {t : Table ρ},
    (rs.map HasKey.key).Nodup →
    (∀ r ∈ rs, t.get (HasKey.key r) = none) →
    ∃ t', insertAll rs t = some t' := by
  induction rs with
  | nil => exact fun _ _ => ⟨_, rfl⟩
  | cons r rest ih =>
      intro t hnodup hfresh
      obtain ⟨hr, hrest⟩ := List.nodup_cons.mp hnodup
      obtain ⟨t₁, hins⟩ := insert_of_fresh (hfresh r List.mem_cons_self)
      have hfresh₁ : ∀ r' ∈ rest, t₁.get (HasKey.key r') = none := by
        intro r' hr'
        have hne : HasKey.key r ≠ HasKey.key r' := fun e =>
          hr (e ▸ List.mem_map_of_mem hr')
        rw [get_insert hins, if_neg hne]
        exact hfresh r' (List.mem_cons_of_mem _ hr')
      obtain ⟨t', h⟩ := ih hrest hfresh₁
      refine ⟨t', ?_⟩
      unfold insertAll
      rw [hins]
      exact h

end Bulk

-- ============================================================== evolution

/-- Rows persist along `R`; rows that appear satisfy `B`. -/
structure Evolves [DecidableEq κ] (R : ρ → ρ → Prop) (B : ρ → Prop)
    (t t' : Table ρ) : Prop where
  persists : ∀ {k r}, t.get k = some r →
    ∃ r', t'.get k = some r' ∧ R r r'
  born : ∀ {k r'}, t.get k = none → t'.get k = some r' → B r'

section Evolution

variable [DecidableEq κ] {R R' : ρ → ρ → Prop} {B B' : ρ → Prop}

/-- An unchanged table evolves along any reflexive relation. -/
theorem Evolves.refl (hR : ∀ r, R r r) (t : Table ρ) :
    Evolves R B t t :=
  ⟨fun h => ⟨_, h, hR _⟩, fun h₀ h => by rw [h₀] at h; cases h⟩

/-- Weakening what rows may do. -/
theorem Evolves.mono {t t' : Table ρ} (hR : ∀ r r', R r r' → R' r r')
    (hB : ∀ r, B r → B' r) (h : Evolves R B t t') : Evolves R' B' t t' := by
  refine ⟨fun hk => ?_, fun h₀ hk => hB _ (h.born h₀ hk)⟩
  obtain ⟨r', hr', hrel⟩ := h.persists hk
  exact ⟨r', hr', hR _ _ hrel⟩

/-- Two changes in a row, along a transitive relation that keeps `B`. -/
theorem Evolves.trans {t₁ t₂ t₃ : Table ρ}
    (hR : ∀ a b c, R a b → R b c → R a c) (hB : ∀ a b, B a → R a b → B b)
    (h₁ : Evolves R B t₁ t₂) (h₂ : Evolves R B t₂ t₃) :
    Evolves R B t₁ t₃ := by
  refine ⟨fun hk => ?_, fun {k r'} h₀ hk => ?_⟩
  · obtain ⟨r₂, hr₂, h₁₂⟩ := h₁.persists hk
    obtain ⟨r₃, hr₃, h₂₃⟩ := h₂.persists hr₂
    exact ⟨r₃, hr₃, hR _ _ _ h₁₂ h₂₃⟩
  · cases hmid : t₂.get k with
    | none => exact h₂.born hmid hk
    | some r₂ =>
        obtain ⟨r₃, hr₃, h₂₃⟩ := h₂.persists hmid
        rw [hk] at hr₃
        injection hr₃ with hr₃
        exact hr₃ ▸ hB _ _ (h₁.born h₀ hmid) h₂₃

/-- Two changes in a row, along any two relations. -/
theorem Evolves.comp {t₁ t₂ t₃ : Table ρ} (h₁ : Evolves R B t₁ t₂)
    (h₂ : Evolves R' B' t₂ t₃) :
    Evolves (fun a c => ∃ b, R a b ∧ R' b c)
      (fun c => (∃ b, B b ∧ R' b c) ∨ B' c) t₁ t₃ := by
  refine ⟨fun hk => ?_, fun {k r'} h₀ hk => ?_⟩
  · obtain ⟨r₂, hr₂, h₁₂⟩ := h₁.persists hk
    obtain ⟨r₃, hr₃, h₂₃⟩ := h₂.persists hr₂
    exact ⟨r₃, hr₃, r₂, h₁₂, h₂₃⟩
  · cases hmid : t₂.get k with
    | none => exact Or.inr (h₂.born hmid hk)
    | some r₂ =>
        obtain ⟨r₃, hr₃, h₂₃⟩ := h₂.persists hmid
        rw [hk] at hr₃
        injection hr₃ with hr₃
        exact Or.inl ⟨r₂, h₁.born h₀ hmid, hr₃ ▸ h₂₃⟩

/-- An insert: the old rows stay, the new one is its own. -/
theorem Evolves.insert (hR : ∀ r, R r r) {t t' : Table ρ} {r : ρ}
    (h : t.insert r = some t') (hB : B r) : Evolves R B t t' := by
  refine ⟨fun hk => ⟨_, get_insert_of_some h hk, hR _⟩,
    fun {k r'} h₀ hk => ?_⟩
  rw [get_insert h k] at hk
  split at hk
  · injection hk with hk
    exact hk ▸ hB
  · rw [h₀] at hk
    cases hk

/-- An update: rewritten rows move along `R`, none appears. -/
theorem Evolves.updateWhere (hR : ∀ r, R r r) (t : Table ρ)
    {p : ρ → Bool} {f : ρ → ρ}
    {hf : ∀ r, HasKey.key (f r) = HasKey.key r}
    (h : ∀ r, r ∈ t.rows → p r → R r (f r)) :
    Evolves R B t (t.updateWhere p f hf) := by
  refine ⟨fun {k r} hk => ?_, fun {k r'} h₀ hk => ?_⟩
  · rw [get_updateWhere, hk]
    refine ⟨_, rfl, ?_⟩
    show R r (if p r then f r else r)
    split
    · rename_i hp
      exact h r (get_some hk).1 hp
    · exact hR r
  · rw [get_updateWhere, h₀] at hk
    cases hk

/-- An update, when `R` need not be reflexive: both branches are
checked. -/
theorem Evolves.updateWhere_cases (t : Table ρ) {p : ρ → Bool}
    {f : ρ → ρ} (hp : ∀ r, p r = true → R r (f r))
    (hn : ∀ r, p r = false → R r r)
    (hf : ∀ r, HasKey.key (f r) = HasKey.key r := by
      intro _; exact Relational.keyKept rfl) :
    Evolves R B t (t.updateWhere p f hf) := by
  refine ⟨fun {k r} hk => ?_, fun {k r'} h₀ hk => ?_⟩
  · rw [get_updateWhere, hk]
    refine ⟨_, rfl, ?_⟩
    show R r (if p r then f r else r)
    cases hpr : p r with
    | true => exact hp r hpr
    | false => exact hn r hpr
  · rw [get_updateWhere, h₀] at hk
    cases hk

/-- A row of the later table was there before or is new. -/
theorem Evolves.origin {t t' : Table ρ} (h : Evolves R B t t') {k : κ}
    {r' : ρ} (hk : t'.get k = some r') :
    (∃ r, t.get k = some r ∧ R r r') ∨ (t.get k = none ∧ B r') := by
  cases h₀ : t.get k with
  | none => exact Or.inr ⟨rfl, h.born h₀ hk⟩
  | some r =>
      obtain ⟨r₁, hr₁, hrel⟩ := h.persists h₀
      rw [hk] at hr₁
      injection hr₁ with hr₁
      exact Or.inl ⟨r, rfl, hr₁ ▸ hrel⟩

end Evolution

-- ============================================================= one column

section Columns

variable [DecidableEq κ] {σ : Type w} {col after : ρ → σ} {start : σ}

/-- What happens to one column: a row that stays has the value `after`
computes from the old row, a row that appears has the value `start`. -/
def ColumnMoves (col after : ρ → σ) (start : σ) (t t' : Table ρ) : Prop :=
  Evolves (fun r r' => col r' = after r) (fun r => col r = start) t t'

theorem ColumnMoves.refl (h : ∀ r, col r = after r) (t : Table ρ) :
    ColumnMoves col after start t t :=
  Evolves.refl h t

theorem ColumnMoves.insert (h : ∀ r, col r = after r) {t t' : Table ρ}
    {r : ρ} (hi : t.insert r = some t') (hr : col r = start) :
    ColumnMoves col after start t t' :=
  Evolves.insert h hi hr

/-- An update under a condition. -/
theorem ColumnMoves.updateWhere (t : Table ρ) {p : ρ → Bool} {f : ρ → ρ}
    (hp : ∀ r, p r = true → col (f r) = after r)
    (hn : ∀ r, p r = false → col r = after r)
    (hf : ∀ r, HasKey.key (f r) = HasKey.key r := by
      intro _; exact Relational.keyKept rfl) :
    ColumnMoves col after start t (t.updateWhere p f hf) :=
  Evolves.updateWhere_cases t hp hn hf

/-- Two changes in a row that keep the column. -/
theorem ColumnMoves.trans {t₁ t₂ t₃ : Table ρ}
    (h₁ : ColumnMoves col col start t₁ t₂)
    (h₂ : ColumnMoves col col start t₂ t₃) :
    ColumnMoves col col start t₁ t₃ :=
  Evolves.trans (fun _ _ _ hab hbc => hbc.trans hab)
    (fun _ _ ha hab => hab.trans ha) h₁ h₂

end Columns

-- ======================================================= selected rows

section Selected

variable [DecidableEq κ]

/-- The keys of the rows that satisfy `p` (`SELECT id … WHERE p`). -/
def keysWhere (t : Table ρ) (p : ρ → Bool) : Finset κ :=
  ((t.rows.filter p).map HasKey.key).toFinset

theorem mem_keysWhere {t : Table ρ} {p : ρ → Bool} {k : κ} :
    k ∈ t.keysWhere p ↔ ∃ r, t.get k = some r ∧ p r = true := by
  unfold keysWhere
  rw [List.mem_toFinset, List.mem_map]
  constructor
  · rintro ⟨r, hr, rfl⟩
    obtain ⟨hmem, hp⟩ := List.mem_filter.mp hr
    exact ⟨r, get_of_mem hmem, hp⟩
  · rintro ⟨r, hr, hp⟩
    obtain ⟨hmem, hkey⟩ := get_some hr
    exact ⟨r, List.mem_filter.mpr ⟨hmem, hp⟩, hkey⟩

/-- One key a row: counting keys counts rows. -/
theorem card_keysWhere (t : Table ρ) (p : ρ → Bool) :
    (t.keysWhere p).card = (t.rows.filter p).length := by
  have hnodup : ((t.rows.filter p).map HasKey.key).Nodup :=
    t.nodup.sublist (List.Sublist.map _ List.filter_sublist)
  unfold keysWhere
  rw [List.toFinset_card_of_nodup hnodup, List.length_map]

/-- Two members of a list that is no longer than one are equal. -/
theorem eq_of_mem_short {α : Type u} {l : List α} (h : l.length ≤ 1)
    {a b : α} (ha : a ∈ l) (hb : b ∈ l) : a = b := by
  match l, h with
  | [], _ => cases ha
  | [x], _ =>
      rw [List.mem_singleton] at ha hb
      exact ha.trans hb.symm

/-- At most one row satisfies `p` when any two that do have one key. -/
theorem length_filter_le_one {t : Table ρ} {p : ρ → Bool}
    (h : ∀ {k₁ k₂ r₁ r₂}, t.get k₁ = some r₁ → t.get k₂ = some r₂ →
      p r₁ = true → p r₂ = true → k₁ = k₂) :
    (t.rows.filter p).length ≤ 1 := by
  rw [← card_keysWhere, Finset.card_le_one]
  intro k₁ hk₁ k₂ hk₂
  obtain ⟨r₁, hr₁, hp₁⟩ := mem_keysWhere.mp hk₁
  obtain ⟨r₂, hr₂, hp₂⟩ := mem_keysWhere.mp hk₂
  exact h hr₁ hr₂ hp₁ hp₂

end Selected

end Table

end Relational
