/-
Lists that are joined with a separator which may occur in them.

`pieces` are what a separator leaves between two of its places, `cuts`
how often it occurs in each list. A joined text says what the pieces are
and no more (`join_eq_iff`); the lists are told by their pieces together
with their cuts (`eq_of_pieces`).
-/
import Mathlib.Data.List.Basic

namespace Separated

universe u

variable {α : Type u} [DecidableEq α] {sep : α} {l : List α}
  {ls ls' : List (List α)}

/-- What stands between separators, in one list after another. -/
def pieces (sep : α) (ls : List (List α)) : List (List α) :=
  ls.flatMap (List.splitOn sep)

/-- How many separators each list has. -/
def cuts (sep : α) (ls : List (List α)) : List Nat :=
  ls.map (List.count sep)

theorem length_splitOn : (l.splitOn sep).length = l.count sep + 1 := by
  induction l with
  | nil => rfl
  | cons a l ih =>
      rw [List.splitOn_cons_eq_if_modifyHead, List.count_cons]
      by_cases ha : a = sep
      · simp [ha, ih]
      · simp [ha, ih]

/-- Splitting finds the pieces of what was joined. -/
theorem splitOn_join (h : ls ≠ []) :
    ([sep].intercalate ls).splitOn sep = pieces sep ls := by
  induction ls with
  | nil => exact absurd rfl h
  | cons l rest ih =>
      cases rest with
      | nil => simp [pieces]
      | cons l' rest =>
          rw [List.intercalate_cons_cons, List.append_assoc,
            List.singleton_append, List.splitOn_append_cons_self,
            ih (List.cons_ne_nil _ _)]
          rfl

theorem join_eq_iff (h : ls ≠ []) (h' : ls' ≠ []) :
    [sep].intercalate ls = [sep].intercalate ls'
      ↔ pieces sep ls = pieces sep ls' := by
  rw [← splitOn_join h, ← splitOn_join h']
  constructor
  · exact congrArg _
  · intro hsplit
    have hjoin := congrArg ([sep].intercalate) hsplit
    rwa [List.intercalate_splitOn, List.intercalate_splitOn] at hjoin

/-- Pieces and cuts say which lists there are. -/
theorem eq_of_pieces (hpieces : pieces sep ls = pieces sep ls')
    (hcuts : cuts sep ls = cuts sep ls') : ls = ls' := by
  induction ls generalizing ls' with
  | nil => exact (List.map_eq_nil_iff.mp hcuts.symm).symm
  | cons l rest ih =>
      cases ls' with
      | nil => cases hcuts
      | cons l' rest' =>
          obtain ⟨hcut, hcuts⟩ := List.cons.inj hcuts
          have hlen : (l.splitOn sep).length = (l'.splitOn sep).length := by
            rw [length_splitOn, length_splitOn, hcut]
          obtain ⟨hsplit, hrest⟩ := List.append_inj hpieces hlen
          have hl := congrArg ([sep].intercalate) hsplit
          rw [List.intercalate_splitOn, List.intercalate_splitOn] at hl
          rw [hl, ih hrest hcuts]

end Separated
