/-
Append-only version chains with one latest row.

# The data

A row carries an id, the cell whose versions it is one of, a version
number, the id of the row it supersedes and a flag for the latest row;
`demote` clears the flag and nothing else. A chain lists the rows of one
cell in the order they were added.

- `Linked l`: the versions are `1, 2, …` and each row supersedes the one
  before it. Flags do not matter, so demoting keeps it.
- `IsChain l`: linked, and the last row alone is flagged.

# The rules

`IsChain.extend` is the one step of such a store: demote the last row,
append its successor. What a writer has to know for it is only that no
flagged row is left and that its version is the next one
(`IsChain.prior_of_demoted` recovers which row it demoted). The readings
`versions`, `flagged`, `maxVersion_eq` say what queries on a chain see.
-/
import Mathlib.Data.List.Basic
import Mathlib.Data.List.Infix
import Mathlib.Tactic.Common

namespace VersionChain

universe u v w

/-- A row of a versioned store. -/
class Versioned (ρ : Type u) (κ : outParam (Type v))
    (γ : outParam (Type w)) where
  id : ρ → κ
  cell : ρ → γ
  version : ρ → Nat
  prior : ρ → Option κ
  latest : ρ → Bool
  demote : ρ → ρ
  id_demote : ∀ r, id (demote r) = id r
  cell_demote : ∀ r, cell (demote r) = cell r
  version_demote : ∀ r, version (demote r) = version r
  prior_demote : ∀ r, prior (demote r) = prior r
  latest_demote : ∀ r, latest (demote r) = false
  demote_demote : ∀ r, demote (demote r) = demote r

attribute [simp] Versioned.id_demote Versioned.cell_demote
  Versioned.version_demote Versioned.prior_demote Versioned.latest_demote
  Versioned.demote_demote

open Versioned (cell demote latest prior version)

variable {ρ : Type u} {κ : Type v} {γ : Type w} [Versioned ρ κ γ]

-- ============================================================= operations

/-- Demote the rows with one of the given ids. -/
def demoteIn [DecidableEq κ] (ids : List κ) (r : ρ) : ρ :=
  if Versioned.id r ∈ ids then demote r else r

/-- `coalesce(max(version), 0)`. -/
def maxVersion : List ρ → Nat
  | [] => 0
  | r :: rest => max (version r) (maxVersion rest)

/-- The rows of one cell. -/
def rowsOf [DecidableEq γ] (c : γ) (l : List ρ) : List ρ :=
  l.filter fun r => cell r = c

/-- The id of the last row. -/
def lastId (l : List ρ) : Option κ := l.getLast?.map Versioned.id

section Demoting

variable [DecidableEq κ] {ids : List κ} {r : ρ}

@[simp] theorem id_demoteIn :
    Versioned.id (demoteIn ids r) = Versioned.id r := by
  unfold demoteIn
  split <;> simp

@[simp] theorem cell_demoteIn : cell (demoteIn ids r) = cell r := by
  unfold demoteIn
  split <;> simp

@[simp] theorem version_demoteIn :
    version (demoteIn ids r) = version r := by
  unfold demoteIn
  split <;> simp

@[simp] theorem prior_demoteIn : prior (demoteIn ids r) = prior r := by
  unfold demoteIn
  split <;> simp

@[simp] theorem demote_demoteIn : demote (demoteIn ids r) = demote r := by
  unfold demoteIn
  split <;> simp

theorem demoteIn_of_notMem (h : Versioned.id r ∉ ids) :
    demoteIn ids r = r := if_neg h

/-- Demoting twice is demoting once. -/
theorem demoteIn_append {ids' : List κ} :
    demoteIn (ids ++ ids') r = demoteIn ids (demoteIn ids' r) := by
  unfold demoteIn
  by_cases h : Versioned.id r ∈ ids
  · by_cases h' : Versioned.id r ∈ ids'
    · simp [h, h']
    · simp [h, h']
  · by_cases h' : Versioned.id r ∈ ids'
    · simp [h, h']
    · simp [h, h']

/-- A list without the ids is left alone. -/
theorem map_demoteIn_of_disjoint {l : List ρ}
    (h : ∀ r ∈ l, Versioned.id r ∉ ids) : l.map (demoteIn ids) = l := by
  calc l.map (demoteIn ids) = l.map id :=
        List.map_congr_left fun r hr => demoteIn_of_notMem (h r hr)
    _ = l := List.map_id l

end Demoting

section Cells

variable [DecidableEq γ] {c : γ} {l l₁ l₂ : List ρ} {r : ρ}

theorem mem_rowsOf : r ∈ rowsOf c l ↔ r ∈ l ∧ cell r = c := by
  unfold rowsOf
  simp

theorem rowsOf_append :
    rowsOf c (l₁ ++ l₂) = rowsOf c l₁ ++ rowsOf c l₂ :=
  List.filter_append l₁ l₂

/-- Demoting moves no row to another cell. -/
theorem rowsOf_map_demoteIn [DecidableEq κ] {ids : List κ} :
    rowsOf c (l.map (demoteIn ids)) = (rowsOf c l).map (demoteIn ids) := by
  unfold rowsOf
  rw [List.filter_map]
  congr 1
  refine List.filter_congr fun r _ => ?_
  simp

end Cells

-- ================================================================= linked

/-- Versions count up from one and each row supersedes the previous. -/
inductive Linked : List ρ → Prop
  | nil : Linked []
  | snoc {l : List ρ} {r : ρ} : Linked l →
      version r = l.length + 1 → prior r = lastId l → Linked (l ++ [r])

/-- Linked, and the last row is the one flagged. -/
inductive IsChain : List ρ → Prop
  | nil : IsChain []
  | snoc {l : List ρ} {r : ρ} : Linked l →
      (∀ x ∈ l, latest x = false) → version r = l.length + 1 →
      prior r = lastId l → latest r = true → IsChain (l ++ [r])

section Linked

variable {l : List ρ} {r : ρ}

theorem lastId_concat : lastId (l ++ [r]) = some (Versioned.id r) := by
  unfold lastId
  rw [List.getLast?_concat]
  rfl

theorem lastId_map {f : ρ → ρ}
    (hid : ∀ r, Versioned.id (f r) = Versioned.id r) :
    lastId (l.map f) = lastId l := by
  unfold lastId
  rw [List.getLast?_map, Option.map_map]
  congr 1
  exact funext hid

theorem IsChain.linked (h : IsChain l) : Linked l := by
  cases h with
  | nil => exact .nil
  | snoc hl _ hv hp _ => exact .snoc hl hv hp

/-- Rewriting neither ids, versions nor links keeps a list linked. -/
theorem Linked.map {f : ρ → ρ}
    (hid : ∀ r, Versioned.id (f r) = Versioned.id r)
    (hv : ∀ r, version (f r) = version r)
    (hp : ∀ r, prior (f r) = prior r) (h : Linked l) :
    Linked (l.map f) := by
  induction h with
  | nil => exact .nil
  | snoc _ hver hprior ih =>
      rw [List.map_append, List.map_singleton]
      refine .snoc ih ?_ ?_
      · rw [hv, hver, List.length_map]
      · rw [hp, hprior, lastId_map hid]

/-- The versions of a chain are `1, …, n`. -/
theorem Linked.versions (h : Linked l) :
    l.map version = List.range' 1 l.length := by
  induction h with
  | nil => rfl
  | @snoc l' r' _ hver _ ih =>
      rw [List.map_append, ih, List.map_singleton, hver,
        List.length_append, List.length_singleton, List.range'_concat]
      congr 2
      omega

theorem Linked.version_le (h : Linked l) {x : ρ} (hx : x ∈ l) :
    1 ≤ version x ∧ version x ≤ l.length := by
  have hmem : version x ∈ l.map version := List.mem_map_of_mem hx
  rw [h.versions, List.mem_range'_1] at hmem
  omega

/-- A version is found at its place, and only there. -/
theorem Linked.filter_version (h : Linked l) (v : Nat) :
    l.filter (fun x => version x = v + 1) = l[v]?.toList := by
  induction h with
  | nil => rfl
  | @snoc l' r' _ hver _ ih =>
      have hone : [r'].filter (fun x => version x = v + 1)
          = if v = l'.length then [r'] else [] := by
        rw [List.filter_singleton, hver, cond_eq_ite]
        simp only [Nat.add_right_cancel_iff, decide_eq_true_eq,
          @eq_comm _ l'.length]
      rw [List.filter_append, ih, hone]
      rcases Nat.lt_trichotomy v l'.length with hlt | heq | hgt
      · rw [if_neg (Nat.ne_of_lt hlt), List.append_nil,
          List.getElem?_append_left hlt]
      · subst heq
        rw [if_pos rfl, List.getElem?_eq_none (Nat.le_refl _),
          List.getElem?_concat_length]
        rfl
      · rw [if_neg (Nat.ne_of_gt hgt), List.getElem?_eq_none (by omega),
          List.getElem?_eq_none (by rw [List.length_append]; exact hgt)]
        rfl

/-- The last row carries the last version. -/
theorem Linked.version_last (h : Linked l) {x : ρ}
    (hx : l.getLast? = some x) : version x = l.length := by
  cases h with
  | nil => cases hx
  | @snoc l' r' _ hver _ =>
      rw [List.getLast?_concat] at hx
      injection hx with hx
      rw [← hx, hver, List.length_append, List.length_singleton]

/-- The row another one supersedes is there, one version earlier. -/
theorem Linked.prior_mem (h : Linked l) {x : ρ} {d : κ} (hx : x ∈ l)
    (hd : prior x = some d) :
    ∃ y ∈ l, Versioned.id y = d ∧ version x = version y + 1 := by
  induction h with
  | nil => cases hx
  | @snoc l' r' hl hver hprior ih =>
      rcases List.mem_append.mp hx with hx | hx
      · obtain ⟨y, hy, hid⟩ := ih hx
        exact ⟨y, List.mem_append_left _ hy, hid⟩
      · rw [List.mem_singleton.mp hx] at hd ⊢
        rw [hprior] at hd
        obtain ⟨y, hy, hid⟩ := Option.map_eq_some_iff.mp hd
        refine ⟨y, List.mem_append_left _ (List.mem_of_getLast? hy), hid, ?_⟩
        rw [hver, hl.version_last hy]

theorem maxVersion_append (l₁ l₂ : List ρ) :
    maxVersion (l₁ ++ l₂) = max (maxVersion l₁) (maxVersion l₂) := by
  induction l₁ with
  | nil => exact (Nat.zero_max _).symm
  | cons r rest ih =>
      show max (version r) (maxVersion (rest ++ l₂)) = _
      rw [ih, ← max_assoc]
      rfl

/-- What the maximum query sees. -/
theorem Linked.maxVersion_eq (h : Linked l) : maxVersion l = l.length := by
  induction h with
  | nil => rfl
  | @snoc l' r' _ hver _ ih =>
      have hone : maxVersion [r'] = version r' := Nat.max_zero _
      rw [maxVersion_append, ih, hone, hver, List.length_append,
        List.length_singleton]
      omega

/-- Consecutive versions are linked. -/
theorem Linked.prior_of_next (h : Linked l) {x y : ρ} (hx : x ∈ l)
    (hy : y ∈ l) (hxy : version y = version x + 1) :
    prior y = some (Versioned.id x) := by
  induction h with
  | nil => cases hx
  | @snoc l' r' hl hver hprior ih =>
      rcases List.mem_append.mp hy with hy | hy
      · have hle := hl.version_le hy
        rcases List.mem_append.mp hx with hx | hx
        · exact ih hx hy
        · rw [List.mem_singleton.mp hx] at hxy
          omega
      · rw [List.mem_singleton.mp hy] at hxy ⊢
        rcases List.mem_append.mp hx with hx | hx
        · -- `x` carries the last version of the shorter chain
          rw [hprior]
          cases hl with
          | nil => cases hx
          | @snoc l'' r'' hl'' hver'' _ =>
              rcases List.mem_append.mp hx with hx | hx
              · have hle := hl''.version_le hx
                rw [List.length_append, List.length_singleton] at hver
                omega
              · rw [List.mem_singleton.mp hx, lastId_concat]
        · rw [List.mem_singleton.mp hx] at hxy
          omega

/-- The first version supersedes nothing. -/
theorem Linked.prior_of_first (h : Linked l) {x : ρ} (hx : x ∈ l)
    (hone : version x = 1) : prior x = none := by
  induction h with
  | nil => cases hx
  | @snoc l' r' hl hver hprior ih =>
      rcases List.mem_append.mp hx with hx | hx
      · exact ih hx
      · rw [List.mem_singleton.mp hx] at hone ⊢
        have hnil : l' = [] := by
          apply List.eq_nil_of_length_eq_zero
          omega
        rw [hprior, hnil]
        rfl

/-- What supersedes nothing is the first version. -/
theorem Linked.first_of_no_prior (h : Linked l) {x : ρ} (hx : x ∈ l)
    (hnone : prior x = none) : version x = 1 := by
  induction h with
  | nil => cases hx
  | @snoc l' r' _ hver hprior ih =>
      rcases List.mem_append.mp hx with hx | hx
      · exact ih hx
      · rw [List.mem_singleton.mp hx] at hnone ⊢
        rw [hprior] at hnone
        have hnil : l' = [] :=
          List.getLast?_eq_none_iff.mp (Option.map_eq_none_iff.mp hnone)
        rw [hver, hnil]
        rfl

/-- The last row of a list that is linked supersedes the one before. -/
theorem Linked.of_concat (h : Linked (l ++ [r])) :
    Linked l ∧ version r = l.length + 1 ∧ prior r = lastId l := by
  generalize hl : l ++ [r] = l' at h
  cases h with
  | nil => simp at hl
  | @snoc l'' r'' hlinked hver hprior =>
      obtain ⟨rfl, hr⟩ := List.append_inj' hl rfl
      obtain rfl := (List.cons.inj hr).1
      exact ⟨hlinked, hver, hprior⟩

/-- So is every list it starts with. -/
theorem Linked.of_append {m : List ρ} (h : Linked (l ++ m)) :
    Linked l := by
  induction m using List.reverseRecOn with
  | nil =>
      rw [List.append_nil] at h
      exact h
  | append_singleton m r ih =>
      rw [← List.append_assoc] at h
      exact ih h.of_concat.1

/-- The flagged rows of a chain: the last one. -/
theorem IsChain.flagged (h : IsChain l) :
    l.filter (fun x => latest x) = l.getLast?.toList := by
  cases h with
  | nil => rfl
  | @snoc l' r' _ hflags _ _ hlatest =>
      have hnone : l'.filter (fun x => latest x) = [] := by
        refine List.filter_eq_nil_iff.mpr fun x hx => ?_
        simp [hflags x hx]
      rw [List.filter_append, hnone, List.getLast?_concat]
      simp [hlatest]

end Linked

-- ============================================================== extension

section Extension

variable [DecidableEq κ] {l : List ρ} {r : ρ} {p : Option κ}

/-- If demoting one known row of a chain leaves no flag, it was the last
row. -/
theorem IsChain.prior_of_demoted (h : IsChain l)
    (hp : ∀ q, p = some q → ∃ x ∈ l, Versioned.id x = q)
    (hflags : ∀ x ∈ l.map (demoteIn p.toList), latest x = false) :
    p = lastId l := by
  cases h with
  | nil =>
      cases p with
      | none => rfl
      | some q =>
          obtain ⟨x, hx, -⟩ := hp q rfl
          cases hx
  | @snoc l' r' _ _ _ _ hlatest =>
      have hr' := hflags (demoteIn p.toList r')
        (List.mem_map_of_mem (List.mem_append_right _
          (List.mem_singleton_self _)))
      have hmem : Versioned.id r' ∈ p.toList := by
        by_contra hnot
        rw [demoteIn_of_notMem hnot, hlatest] at hr'
        cases hr'
      rw [lastId_concat]
      exact Option.mem_toList.mp hmem

/-- Demoting the last row of a chain leaves no flag. -/
theorem IsChain.demoted_last (h : IsChain l) :
    ∀ x ∈ l.map (demoteIn (lastId l).toList), latest x = false := by
  cases h with
  | nil => exact fun x hx => absurd hx List.not_mem_nil
  | @snoc l' r' _ hflags _ _ _ =>
      intro x hx
      obtain ⟨y, hy, rfl⟩ := List.mem_map.mp hx
      rcases List.mem_append.mp hy with hy | hy
      · unfold demoteIn
        split
        · exact Versioned.latest_demote y
        · exact hflags y hy
      · rw [List.mem_singleton.mp hy, lastId_concat]
        unfold demoteIn
        rw [if_pos (by simp)]
        exact Versioned.latest_demote r'

/-- Demote the last row, append its successor. -/
theorem IsChain.extend (h : IsChain l)
    (hp : ∀ q, p = some q → ∃ x ∈ l, Versioned.id x = q)
    (hflags : ∀ x ∈ l.map (demoteIn p.toList), latest x = false)
    (hv : version r = l.length + 1) (hprior : prior r = p)
    (hlatest : latest r = true) :
    IsChain (l.map (demoteIn p.toList) ++ [r]) := by
  have hlast := h.prior_of_demoted hp hflags
  refine .snoc ?_ hflags ?_ ?_ hlatest
  · exact h.linked.map (fun _ => id_demoteIn) (fun _ => version_demoteIn)
      fun _ => prior_demoteIn
  · rw [hv, List.length_map]
  · rw [hprior, lastId_map fun _ => id_demoteIn]
    exact hlast

end Extension

end VersionChain
