/-
Append-only lists whose elements carry their position: numbered `0, 1,
2, …` by a field, the way a table with a unique `(owner, index)` column
is when every insert takes the maximum plus one.

# What the numbering gives

- the next number is the length (`foldl_max`), so an insert that was
  numbered from an older maximum either is the next one or collides
  (`eq_length_of_free`);
- the list is in the order of its numbers (`insertionSort_eq`);
- the elements after a number are a suffix (`filter_gt`), so a reader
  that pages by the last number it has seen (`last_num`) goes on where
  it left off.
-/
import Mathlib.Data.List.Infix
import Mathlib.Data.List.Sort
import Mathlib.Tactic.Common

namespace Numbered

universe u

variable {α : Type u} {num : α → Int} {l : List α}

/-- The elements of `l` are numbered from `n` on. -/
def From (num : α → Int) (n : Nat) (l : List α) : Prop :=
  ∀ i, (h : i < l.length) → num (l.get ⟨i, h⟩) = n + i

/-- The elements of `l` are numbered `0, 1, 2, …`. -/
abbrev FromZero (num : α → Int) (l : List α) : Prop := From num 0 l

theorem from_nil (n : Nat) : From num n ([] : List α) :=
  fun _ h => absurd h (Nat.not_lt_zero _)

/-- Two lists glue when the second is numbered from where the first
ends. -/
theorem From.append {n : Nat} {l₁ l₂ : List α} (h₁ : From num n l₁)
    (h₂ : From num (n + l₁.length) l₂) : From num n (l₁ ++ l₂) := by
  intro i hi
  by_cases hlt : i < l₁.length
  · have hget : (l₁ ++ l₂).get ⟨i, hi⟩ = l₁.get ⟨i, hlt⟩ := by
      simp [List.getElem_append_left hlt]
    rw [hget]
    exact h₁ i hlt
  · have hi₂ : i - l₁.length < l₂.length := by
      rw [List.length_append] at hi
      omega
    have hget : (l₁ ++ l₂).get ⟨i, hi⟩ = l₂.get ⟨i - l₁.length, hi₂⟩ := by
      simp [List.getElem_append_right (Nat.le_of_not_lt hlt)]
    rw [hget, h₂ _ hi₂]
    omega

theorem from_singleton {n : Nat} {a : α} (h : num a = n) :
    From num n [a] := by
  intro i hi
  have hzero : i = 0 := by
    rw [List.length_singleton] at hi
    omega
  subst hzero
  simpa using h

/-- The next element takes the length as its number. -/
theorem From.snoc {a : α} (h : FromZero num l) (ha : num a = l.length) :
    FromZero num (l ++ [a]) := by
  refine h.append (from_singleton ?_)
  rw [ha, Nat.zero_add]

theorem From.tail {n : Nat} {a : α} (h : From num n (a :: l)) :
    num a = n ∧ From num (n + 1) l := by
  refine ⟨?_, fun i hi => ?_⟩
  · have hhead := h 0 (Nat.zero_lt_succ _)
    simpa using hhead
  · have hnext := h (i + 1) (Nat.succ_lt_succ hi)
    simp only [List.get_eq_getElem, List.getElem_cons_succ] at hnext
    rw [List.get_eq_getElem, hnext]
    omega

theorem From.drop {n : Nat} (h : From num n l) (k : Nat) :
    From num (n + k) (l.drop k) := by
  intro i hi
  have hlt : k + i < l.length := by
    rw [List.length_drop] at hi
    omega
  have hget : (l.drop k).get ⟨i, hi⟩ = l.get ⟨k + i, hlt⟩ := by simp
  rw [hget, h _ hlt]
  omega

theorem From.front {n : Nat} {l' : List α} (h : From num n l)
    (hl : l' <+: l) : From num n l' := by
  intro i hi
  rw [List.get_eq_getElem, hl.getElem hi]
  exact h i (Nat.lt_of_lt_of_le hi hl.length_le)

theorem From.mem {n : Nat} {a : α} (h : From num n l) (ha : a ∈ l) :
    n ≤ num a ∧ num a < n + l.length := by
  obtain ⟨⟨i, hi⟩, rfl⟩ := List.get_of_mem ha
  rw [h i hi]
  omega

/-- Which numbers are taken. -/
theorem From.taken {k : Int} (h : FromZero num l) :
    (∃ a ∈ l, num a = k) ↔ 0 ≤ k ∧ k < l.length := by
  constructor
  · rintro ⟨a, ha, rfl⟩
    have hbounds := h.mem ha
    omega
  · rintro ⟨h₀, hlt⟩
    have hi : k.toNat < l.length := by omega
    refine ⟨l.get ⟨k.toNat, hi⟩, List.get_mem _ _, ?_⟩
    rw [h _ hi]
    omega

/-- A number that was the next one and is free still is. -/
theorem eq_length_of_free {k : Int} (h : FromZero num l) (h₀ : 0 ≤ k)
    (hle : k ≤ l.length) (hfree : ¬ ∃ a ∈ l, num a = k) :
    k = l.length := by
  rw [h.taken] at hfree
  omega

theorem foldl_max_from {n : Nat} (h : From num n l) {b : Int}
    (hb : b = n - 1) :
    (l.map num).foldl max b = b + l.length := by
  induction l generalizing n b with
  | nil => simp
  | cons a rest ih =>
      obtain ⟨ha, hrest⟩ := h.tail
      have hmax : max b (num a) = b + 1 := by omega
      rw [List.map_cons, List.foldl_cons, hmax, ih hrest (by omega),
        List.length_cons]
      omega

/-- The maximum of the numbers, plus one, is the length. -/
theorem foldl_max (h : FromZero num l) :
    (l.map num).foldl max (-1) + 1 = l.length := by
  rw [foldl_max_from h (by omega)]
  omega

/-- The numbers, in order, are those below the length. -/
theorem map_num (h : FromZero num l) :
    l.map num = (List.range l.length).map Int.ofNat := by
  refine List.ext_getElem (by simp) fun i hi _ => ?_
  have hnum := h i (by simpa using hi)
  simpa using hnum

/-- The list is in the order of its numbers. -/
theorem From.pairwise {n : Nat} (h : From num n l) :
    l.Pairwise fun a b => num a ≤ num b := by
  induction l generalizing n with
  | nil => exact List.Pairwise.nil
  | cons a rest ih =>
      obtain ⟨ha, hrest⟩ := h.tail
      refine List.Pairwise.cons (fun b hb => ?_) (ih hrest)
      have hbounds := hrest.mem hb
      omega

theorem insertionSort_eq {n : Nat} (h : From num n l) :
    l.insertionSort (fun a b => num a ≤ num b) = l :=
  List.Pairwise.insertionSort_eq h.pairwise

/-- The elements numbered `k` and higher are those after the first
`k`. -/
theorem filter_gt (h : FromZero num l) (k : Nat) :
    l.filter (fun a => (k : Int) - 1 < num a) = l.drop k := by
  conv_lhs => rw [← List.take_append_drop k l]
  rw [List.filter_append]
  have htake : (l.take k).filter (fun a => (k : Int) - 1 < num a) = [] := by
    refine List.filter_eq_nil_iff.mpr fun a ha => ?_
    obtain ⟨⟨i, hi⟩, rfl⟩ := List.get_of_mem ha
    have hi' := hi
    rw [List.length_take] at hi'
    have hget : (l.take k).get ⟨i, hi⟩ = l.get ⟨i, by omega⟩ := by
      simp
    rw [hget, h i (by omega)]
    simp only [decide_eq_true_eq]
    omega
  have hdrop : (l.drop k).filter (fun a => (k : Int) - 1 < num a)
      = l.drop k := by
    refine List.filter_eq_self.mpr fun a ha => ?_
    obtain ⟨⟨i, hi⟩, rfl⟩ := List.get_of_mem ha
    have hi' := hi
    rw [List.length_drop] at hi'
    have hget : (l.drop k).get ⟨i, hi⟩ = l.get ⟨k + i, by omega⟩ := by
      simp
    rw [hget, h _ (by omega)]
    simp only [decide_eq_true_eq]
    omega
  rw [htake, hdrop, List.nil_append]

/-- The number of the last element seen is one less than how many have
been seen. -/
theorem last_num {n : Nat} {a : α} {seen : List α}
    (h : From num n (seen ++ [a])) : num a = n + seen.length := by
  have hlast := h seen.length (by simp)
  simpa using hlast

end Numbered
