/-
Append-only logs that writers fill through buffers.

# The data

A store keeps, for each cell, the entries that are published and, for
each writer, those it has buffered there. A writer appends to one of its
buffers, publishes them all or discards them all; it sees what is
published and, behind it, its own buffer (`seen`).

# The rules

A published entry stays where it is (`Steps.published_grows`), so what
is found under its number once is found there ever after
(`lookup_grows`). A writer buffers in a cell only while no other has:
such buffers stay apart (`Step.apart`), and what a writer sees of a cell
in which it has buffered lasts, whatever the others do
(`Steps.seen_stable`).
-/
import Mathlib.Logic.Function.Basic
import Mathlib.Logic.Relation
import Mathlib.Tactic.Common

namespace AppendLog

universe u v w

variable {ι : Type u} {γ : Type v} {α : Type w}

-- =================================================================== lookup

/-- The last entry, or the one of the given number; they count from
one. -/
def lookup (l : List α) : Option Nat → Option α
  | none => l.getLast?
  | some 0 => none
  | some (v + 1) => l[v]?

section Lookup

variable {l l' : List α} {a : α} {v : Nat}

theorem lookup_map {β : Type w} (f : α → β) (number : Option Nat) :
    lookup (l.map f) number = (lookup l number).map f := by
  cases number with
  | none => exact List.getLast?_map
  | some v =>
      cases v with
      | zero => rfl
      | succ v => exact List.getElem?_map

/-- An entry keeps its number when the list goes on. -/
theorem lookup_grows (h : l <+: l') (hv : lookup l (some v) = some a) :
    lookup l' (some v) = some a := by
  cases v with
  | zero => cases hv
  | succ v =>
      obtain ⟨hlt, -⟩ := List.getElem?_eq_some_iff.mp hv
      obtain ⟨more, rfl⟩ := h
      exact (List.getElem?_append_left hlt).trans hv

end Lookup

-- =================================================================== stores

/-- What is published, and what each writer has buffered. -/
structure Store (ι : Type u) (γ : Type v) (α : Type w) where
  published : γ → List α
  buffered : ι → γ → List α

/-- What a writer sees of a cell. -/
def Store.seen (S : Store ι γ α) (t : ι) (c : γ) : List α :=
  S.published c ++ S.buffered t c

variable [DecidableEq ι] [DecidableEq γ]

/-- Append to the buffer of a cell. -/
def Store.buffer (S : Store ι γ α) (t : ι) (c : γ) (a : α) :
    Store ι γ α :=
  { S with
    buffered := Function.update S.buffered t
      (Function.update (S.buffered t) c (S.buffered t c ++ [a])) }

/-- Forget what a writer has buffered. -/
def Store.discard (S : Store ι γ α) (t : ι) : Store ι γ α :=
  { S with buffered := Function.update S.buffered t fun _ => [] }

/-- Append it all to what is published. -/
def Store.publish (S : Store ι γ α) (t : ι) : Store ι γ α :=
  { published := S.seen t
    buffered := Function.update S.buffered t fun _ => [] }

/-- No other writer has buffered in the cell. -/
def Store.Free (S : Store ι γ α) (t : ι) (c : γ) : Prop :=
  ∀ t', t' ≠ t → S.buffered t' c = []

/-- No two writers have buffered in one cell. -/
def Store.Apart (S : Store ι γ α) : Prop :=
  ∀ t c, S.buffered t c ≠ [] → S.Free t c

/-- What a writer may do. -/
inductive Step (t : ι) (S : Store ι γ α) : Store ι γ α → Prop
  | buffer (c : γ) (a : α) : S.Free t c → Step t S (S.buffer t c a)
  | publish : Step t S (S.publish t)
  | discard : Step t S (S.discard t)

/-- What the writers of a set may do in turn. -/
abbrev Steps (p : ι → Prop) : Store ι γ α → Store ι γ α → Prop :=
  Relation.ReflTransGen fun S S' => ∃ t, p t ∧ Step t S S'

section Steps

variable {S S' : Store ι γ α} {t t' : ι} {c : γ} {p : ι → Prop}

theorem Step.published_grows (h : Step t S S') (c : γ) :
    S.published c <+: S'.published c := by
  cases h with
  | buffer c' a hfree => exact List.prefix_rfl
  | publish => exact List.prefix_append _ _
  | discard => exact List.prefix_rfl

/-- Nothing that was published is lost. -/
theorem Steps.published_grows (h : Steps p S S') (c : γ) :
    S.published c <+: S'.published c := by
  induction h with
  | refl => exact List.prefix_rfl
  | tail _ hstep ih =>
      obtain ⟨t, -, hstep⟩ := hstep
      exact ih.trans (hstep.published_grows c)

/-- A writer changes its own buffers only. -/
theorem Step.buffered_other (h : Step t S S') (ht : t' ≠ t) :
    S'.buffered t' = S.buffered t' := by
  cases h with
  | buffer c' a hfree => exact Function.update_of_ne ht _ _
  | publish => exact Function.update_of_ne ht _ _
  | discard => exact Function.update_of_ne ht _ _

/-- It adds to the cells where no other has buffered. -/
theorem Step.buffered_own (h : Step t S S') (c : γ) :
    S'.buffered t c = [] ∨ S'.buffered t c = S.buffered t c
      ∨ S.Free t c := by
  cases h with
  | buffer c' a hfree =>
      simp only [Store.buffer, Function.update_self]
      by_cases hc : c = c'
      · subst hc
        exact Or.inr (Or.inr hfree)
      · rw [Function.update_of_ne hc]
        exact Or.inr (Or.inl rfl)
  | publish =>
      exact Or.inl (congrFun (Function.update_self t _ S.buffered) c)
  | discard =>
      exact Or.inl (congrFun (Function.update_self t _ S.buffered) c)

/-- Buffers stay apart. -/
theorem Step.apart (h : Step t S S') (hS : S.Apart) : S'.Apart := by
  intro t₁ c hne t₂ ht
  by_cases ht₁ : t₁ = t
  · subst ht₁
    rw [h.buffered_other ht]
    rcases h.buffered_own c with hnone | hsame | hfree
    · exact absurd hnone hne
    · rw [hsame] at hne
      exact hS t₁ c hne t₂ ht
    · exact hfree t₂ ht
  · rw [h.buffered_other ht₁] at hne
    by_cases ht₂ : t₂ = t
    · subst ht₂
      have hnone := hS t₁ c hne t₂ ht
      rcases h.buffered_own c with hnone' | hsame | hfree
      · exact hnone'
      · rw [hsame]
        exact hnone
      · exact absurd (hfree t₁ ht₁) hne
    · rw [h.buffered_other ht₂]
      exact hS t₁ c hne t₂ ht

/-- Another writer publishes nothing in a cell where one has buffered. -/
theorem Step.published_other (h : Step t S S') (hS : S.Apart)
    (ht : t' ≠ t) (hne : S.buffered t' c ≠ []) :
    S'.published c = S.published c := by
  cases h with
  | buffer c' a hfree => rfl
  | publish =>
      show S.published c ++ S.buffered t c = S.published c
      rw [hS t' c hne t ht.symm, List.append_nil]
  | discard => rfl

/-- Where a writer has buffered, it sees no more than its own steps. -/
theorem Steps.seen_stable (h : Steps (· ≠ t) S S') (hS : S.Apart)
    (hne : S.buffered t c ≠ []) :
    S'.buffered t c = S.buffered t c ∧ S'.seen t c = S.seen t c := by
  suffices S'.Apart ∧ S'.buffered t c = S.buffered t c
      ∧ S'.published c = S.published c by
    obtain ⟨-, hbuffered, hpublished⟩ := this
    refine ⟨hbuffered, ?_⟩
    unfold Store.seen
    rw [hbuffered, hpublished]
  induction h with
  | refl => exact ⟨hS, rfl, rfl⟩
  | tail _ hstep ih =>
      obtain ⟨t', ht', hstep⟩ := hstep
      obtain ⟨hapart, hbuffered, hpublished⟩ := ih
      refine ⟨hstep.apart hapart, ?_, ?_⟩
      · rw [hstep.buffered_other (Ne.symm ht'), hbuffered]
      · rw [hstep.published_other hapart (Ne.symm ht') (hbuffered ▸ hne),
          hpublished]

end Steps

end AppendLog
