/-
Unique keys under open transactions: a set of keys is held by committed
rows, every transaction claims the keys of the rows it has inserted and
not yet committed.

`Reserved` is what a unique index guarantees of them, provided that an
insert first checks the committed keys and waits for a concurrent
inserter of the same key: no claimed key is held, and no two transactions
claim one key. Three rules keep it:

- `move`: a transaction claims more or gives up claims; a new claim has
  passed the check and the wait;
- `publish`: a transaction commits, its claims become held;
- `anti`: keys are no longer held.
-/
import Mathlib.Data.Set.Basic
import Mathlib.Logic.Function.Basic

namespace Reservations

universe u v

variable {ι : Type u} {κ : Type v}

/-- What a unique index guarantees of held and claimed keys. -/
structure Reserved (held : Set κ) (claims : ι → Set κ) : Prop where
  fresh : ∀ {i k}, k ∈ claims i → k ∉ held
  apart : ∀ {i j k}, k ∈ claims i → k ∈ claims j → i = j

/-- A new claim: held by nobody, and claimed by no other transaction. -/
def Free (held : Set κ) (claims : ι → Set κ) (i : ι) (k : κ) : Prop :=
  k ∉ held ∧ ∀ j, k ∈ claims j → j = i

variable {held held' : Set κ} {claims : ι → Set κ}

/-- Nothing is claimed yet. -/
theorem Reserved.init : Reserved held fun _ : ι => ∅ :=
  ⟨fun h => h.elim, fun h => h.elim⟩

/-- Own claims pass the check and the wait once more. -/
theorem Reserved.free (h : Reserved held claims) {i : ι} {k : κ}
    (hk : k ∈ claims i) : Free held claims i k :=
  ⟨h.fresh hk, fun _ hj => h.apart hj hk⟩

/-- Keys are no longer held. -/
theorem Reserved.anti (h : Reserved held claims) (hsub : held' ⊆ held) :
    Reserved held' claims :=
  ⟨fun hk hheld => h.fresh hk (hsub hheld), h.apart⟩

section Moves

variable [DecidableEq ι]

/-- One transaction changes its claims. -/
theorem Reserved.move (h : Reserved held claims) (i : ι) {ks : Set κ}
    (hks : ∀ k ∈ ks, Free held claims i k) :
    Reserved held (Function.update claims i ks) := by
  have hcases : ∀ {j k}, k ∈ Function.update claims i ks j →
      (j = i ∧ k ∈ ks) ∨ (j ≠ i ∧ k ∈ claims j) := by
    intro j k hk
    by_cases hj : j = i
    · subst hj
      rw [Function.update_self] at hk
      exact Or.inl ⟨rfl, hk⟩
    · rw [Function.update_of_ne hj] at hk
      exact Or.inr ⟨hj, hk⟩
  refine ⟨fun hk => ?_, fun {j₁ j₂ k} h₁ h₂ => ?_⟩
  · rcases hcases hk with ⟨-, hk⟩ | ⟨-, hk⟩
    · exact (hks _ hk).1
    · exact h.fresh hk
  · rcases hcases h₁ with ⟨rfl, hnew₁⟩ | ⟨-, hold₁⟩
    · rcases hcases h₂ with ⟨rfl, -⟩ | ⟨-, hold₂⟩
      · rfl
      · exact ((hks k hnew₁).2 _ hold₂).symm
    · rcases hcases h₂ with ⟨rfl, hnew₂⟩ | ⟨-, hold₂⟩
      · exact (hks k hnew₂).2 _ hold₁
      · exact h.apart hold₁ hold₂

/-- One transaction commits: what it claimed is held. -/
theorem Reserved.publish (h : Reserved held claims) (i : ι)
    (hheld : held' ⊆ held ∪ claims i) :
    Reserved held' (Function.update claims i ∅) := by
  have hmoved : Reserved held (Function.update claims i ∅) :=
    h.move i fun _ hk => hk.elim
  refine ⟨fun {j k} hk hk' => ?_, hmoved.apart⟩
  rcases hheld hk' with hk' | hk'
  · exact hmoved.fresh hk hk'
  · by_cases hj : j = i
    · subst hj
      rw [Function.update_self] at hk
      exact hk
    · rw [Function.update_of_ne hj] at hk
      exact hj (h.apart hk hk')

end Moves

end Reservations
