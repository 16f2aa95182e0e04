/-
Lists in which a column is unique: a table with a unique constraint next
to its primary key, or with several.

`column : ρ → κ` is unique in `l` when `l.map column` has no duplicates.
A search by the column then finds the one row that has the value
(`find_unique`), and a query returns it alone (`filter_unique`). Appending
a row with a new value keeps the constraint (`nodup_concat`), and so does
an update that keeps the column (`map_column`).
-/
import Mathlib.Data.List.Nodup
import Mathlib.Tactic.Common

namespace Relational

universe u v

variable {ρ : Type u} {κ : Type v} {column : ρ → κ} {l : List ρ} {r : ρ}

/-- A row with a new value may be added. -/
theorem nodup_concat (h : (l.map column).Nodup)
    (hnew : ∀ x ∈ l, column x ≠ column r) :
    ((l ++ [r]).map column).Nodup := by
  rw [List.map_append, List.map_singleton]
  refine List.Nodup.append h (List.nodup_singleton _) ?_
  intro v hv hr
  rw [List.mem_singleton] at hr
  obtain ⟨x, hx, rfl⟩ := List.mem_map.mp hv
  exact hnew x hx hr

/-- An update that keeps the column. -/
theorem map_column {f : ρ → ρ} (hf : ∀ x, column (f x) = column x) :
    (l.map f).map column = l.map column := by
  rw [List.map_map]
  exact List.map_congr_left fun x _ => hf x

variable [DecidableEq κ] {k : κ}

/-- A search by a unique column finds the row that has the value. -/
theorem find_unique (h : (l.map column).Nodup) :
    l.find? (fun x => column x = k) = some r ↔ r ∈ l ∧ column r = k := by
  constructor
  · intro hr
    exact ⟨List.mem_of_find?_eq_some hr, by simpa using List.find?_some hr⟩
  · rintro ⟨hr, rfl⟩
    cases hfind : l.find? fun x => column x = column r with
    | none =>
        have hnone := List.find?_eq_none.mp hfind r hr
        simp at hnone
    | some r' =>
        have hkey : column r' = column r := by
          simpa using List.find?_some hfind
        rw [List.inj_on_of_nodup_map h
          (List.mem_of_find?_eq_some hfind) hr hkey]

theorem find_none :
    l.find? (fun x => column x = k) = none ↔ ∀ x ∈ l, column x ≠ k := by
  rw [List.find?_eq_none]
  refine forall_congr' fun x => forall_congr' fun _ => ?_
  simp

/-- A query by a unique column returns one row at most. -/
theorem filter_unique (h : (l.map column).Nodup) :
    l.filter (fun x => column x = k)
      = (l.find? fun x => column x = k).toList := by
  induction l with
  | nil => rfl
  | cons x rest ih =>
      rw [List.map_cons, List.nodup_cons] at h
      by_cases hx : column x = k
      · rw [List.filter_cons_of_pos (by simpa using hx),
          List.find?_cons_of_pos (by simpa using hx)]
        have hnone : rest.filter (fun y => column y = k) = [] := by
          refine List.filter_eq_nil_iff.mpr fun y hy hyk => h.1 ?_
          have hkey : column y = column x :=
            (by simpa using hyk : column y = k).trans hx.symm
          rw [← hkey]
          exact List.mem_map_of_mem hy
        rw [hnone]
        rfl
      · rw [List.filter_cons_of_neg (by simpa using hx),
          List.find?_cons_of_neg (by simpa using hx)]
        exact ih h.2

/-- What a search finds after such an update. -/
theorem find_map {f : ρ → ρ} (hf : ∀ x, column (f x) = column x) :
    (l.map f).find? (fun x => column x = k)
      = (l.find? fun x => column x = k).map f := by
  rw [List.find?_map]
  have hsame : (fun x => decide (column x = k)) ∘ f
      = fun x => decide (column x = k) := by
    funext x
    exact congrArg (fun v => decide (v = k)) (hf x)
  rw [hsame]

end Relational
