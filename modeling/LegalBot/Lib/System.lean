/-
Guarded transition systems: an executable step `step : α → σ → Option σ`
(`none` = the action is disabled), the runs it generates, and the
induction rules a safety proof uses.

# The three views of a run

- `run`/`trace` are the executable spine: a list of actions either
  replays from a state or gets stuck; `trace` also keeps every state it
  passes through.
- `Reachable` is the inductive closure, relative to a per-step guard
  `G`: a state is `G`-reachable when some run whose every step met `G`
  ends there. The unguarded system is the instance `Always`.
- `Trace.isChain` turns a per-step relation into a fact about every two
  consecutive states of a run, which is what a conformance claim (every
  committed change is an allowed one) asks for.

# The rules

`Reachable.invariant` is the one induction of the development's safety
proofs: initially true and preserved by every guarded step from a
reachable state. `countSteps_invariant` is the same for what relates a
state to how often two kinds of step were taken before it, and
`collect_invariant` for what relates it to what the steps put out.
`run_cost_le` bounds what the steps of a run cost by a rank they lower.
`run_filter` compares a run with the one that leaves out some of its
actions. `Along` says that every step of a run meets a property;
`along_iff` exchanges it for one that is equivalent under an invariant,
`along_congr` for one that is equivalent in the reachable states.
`Reachable.simulates` carries a run over to a more abstract system of
which every step is some steps. `reachable_of_run` transports an executable run into the closure, so that
a concrete list of actions witnesses a reachable state.
-/
import Mathlib.Algebra.GroupWithZero.Nat
import Mathlib.Data.List.Basic
import Mathlib.Data.List.Chain
import Mathlib.Data.List.Destutter
import Mathlib.Logic.Relation
import Mathlib.Tactic.Common

namespace Lts

universe u v

variable {σ : Type u} {α : Type v}

/-- The scenarios of concurrent calls have two of them. -/
instance twoActors : @NeZero Nat Zero.ofOfNat0 2 :=
  ⟨Nat.succ_ne_zero 1⟩

/-- Others have one. -/
instance oneActor : @NeZero Nat Zero.ofOfNat0 1 :=
  ⟨Nat.succ_ne_zero 0⟩

-- ========================================================= executable runs

/-- Replay a list of actions, failing on the first disabled one. -/
def run (step : α → σ → Option σ) : σ → List α → Option σ
  | s, [] => some s
  | s, a :: rest =>
      match step a s with
      | some s' => run step s' rest
      | none => none

/-- Replay a list of actions, keeping every state passed through (the
starting state first). -/
def trace (step : α → σ → Option σ) : σ → List α → Option (List σ)
  | s, [] => some [s]
  | s, a :: rest =>
      match step a s with
      | some s' => (trace step s' rest).map (s :: ·)
      | none => none

theorem run_one {step : α → σ → Option σ} {a : α} {s s' : σ}
    (h : step a s = some s') : run step s [a] = some s' := by
  rw [run, h]
  rfl

/-- One list of actions after the other. -/
theorem run_append {step : α → σ → Option σ} {xs ys : List α} :
    ∀ {s s₁ : σ}, run step s xs = some s₁ →
      run step s (xs ++ ys) = run step s₁ ys := by
  induction xs with
  | nil =>
      intro s s₁ h
      simp only [run, Option.some.injEq] at h
      rw [h, List.nil_append]
  | cons a rest ih =>
      intro s s₁ h
      unfold run at h
      cases ha : step a s with
      | none => simp [ha] at h
      | some s₂ =>
          rw [ha] at h
          rw [List.cons_append, run, ha]
          exact ih h

/-- The guard every step meets. -/
def Always : α → σ → Prop := fun _ _ => True

/-- The states reachable by runs whose every step meets the guard `G`
in the state it is taken from. -/
inductive Reachable (step : α → σ → Option σ) (G : α → σ → Prop)
    (init : σ) : σ → Prop
  | init : Reachable step G init init
  | step {s s' : σ} (a : α) :
      Reachable step G init s → G a s → step a s = some s' →
      Reachable step G init s'

variable {step : α → σ → Option σ} {G : α → σ → Prop} {init : σ}

-- ================================================================ the rules

/-- An invariant: true initially, preserved by every guarded step from
a reachable state that satisfies it. -/
theorem Reachable.invariant {P : σ → Prop} (h₀ : P init)
    (hstep : ∀ s a s', Reachable step G init s → P s → G a s →
      step a s = some s' → P s') :
    ∀ {s : σ}, Reachable step G init s → P s := by
  intro s hs
  induction hs with
  | init => exact h₀
  | step a hr hg ha ih => exact hstep _ a _ hr ih hg ha

/-- Weakening the guard keeps reachability. -/
theorem Reachable.mono {G' : α → σ → Prop} (hG : ∀ a s, G a s → G' a s) :
    ∀ {s : σ}, Reachable step G init s → Reachable step G' init s := by
  intro s hs
  induction hs with
  | init => exact .init
  | step a _ hg ha ih => exact .step a ih (hG a _ hg) ha

/-- What is reachable from a reachable state is reachable. -/
theorem Reachable.trans {s s' : σ} (h : Reachable step G init s)
    (h' : Reachable step G s s') : Reachable step G init s' := by
  induction h' with
  | init => exact h
  | step a _ hg ha ih => exact .step a ih hg ha

/-- When each step is some steps of a relation, seen through `abs`, so is
a run. -/
theorem Reachable.simulates {β : Type v} {R : β → β → Prop} (abs : σ → β)
    (hstep : ∀ s a s', Reachable step G init s → G a s →
      step a s = some s' → Relation.ReflTransGen R (abs s) (abs s')) :
    ∀ {s : σ}, Reachable step G init s →
      Relation.ReflTransGen R (abs init) (abs s) := by
  intro s hs
  induction hs with
  | init => exact .refl
  | step a hr hg ha ih => exact ih.trans (hstep _ a _ hr hg ha)

/-- A successful run lands on a reachable state. -/
theorem reachable_of_run {acts : List α} :
    ∀ {s s' : σ}, Reachable step Always init s →
      run step s acts = some s' → Reachable step Always init s' := by
  induction acts with
  | nil =>
      intro s s' hr h
      simp only [run, Option.some.injEq] at h
      exact h ▸ hr
  | cons a rest ih =>
      intro s s' hr h
      unfold run at h
      cases ha : step a s with
      | none => simp [ha] at h
      | some s₁ =>
          rw [ha] at h
          exact ih (.step a hr trivial ha) h

/-- A run of actions that meet the guard in any state. -/
theorem reachable_of_run_all {acts : List α} (hG : ∀ a ∈ acts, ∀ s, G a s) :
    ∀ {s s' : σ}, Reachable step G init s →
      run step s acts = some s' → Reachable step G init s' := by
  induction acts with
  | nil =>
      intro s s' hr h
      simp only [run, Option.some.injEq] at h
      exact h ▸ hr
  | cons a rest ih =>
      intro s s' hr h
      unfold run at h
      cases ha : step a s with
      | none => simp [ha] at h
      | some s₁ =>
          rw [ha] at h
          exact ih (fun b hb => hG b (List.mem_cons_of_mem _ hb))
            (.step a hr (hG a List.mem_cons_self s) ha) h

/-- A step that checks its guard first. -/
def guarded (step : α → σ → Option σ) (G : α → σ → Prop)
    [∀ a s, Decidable (G a s)] (a : α) (s : σ) : Option σ :=
  if G a s then step a s else none

/-- A successful run of guarded steps lands on a guard-reachable
state. -/
theorem reachable_of_guarded_run [∀ a s, Decidable (G a s)]
    {acts : List α} :
    ∀ {s s' : σ}, Reachable step G init s →
      run (guarded step G) s acts = some s' →
      Reachable step G init s' := by
  induction acts with
  | nil =>
      intro s s' hr h
      simp only [run, Option.some.injEq] at h
      exact h ▸ hr
  | cons a rest ih =>
      intro s s' hr h
      unfold run guarded at h
      by_cases hg : G a s
      · rw [if_pos hg] at h
        cases ha : step a s with
        | none => simp [ha] at h
        | some s₁ =>
            rw [ha] at h
            exact ih (.step a hr hg ha) h
      · rw [if_neg hg] at h
        cases h

/-- A trace starts at its starting state. -/
theorem trace_head {acts : List α} {s : σ} {tr : List σ}
    (h : trace step s acts = some tr) : tr.head? = some s := by
  cases acts with
  | nil =>
      simp only [trace, Option.some.injEq] at h
      subst h
      rfl
  | cons a rest =>
      unfold trace at h
      cases ha : step a s with
      | none => simp [ha] at h
      | some s₁ =>
          rw [ha] at h
          obtain ⟨tl, -, rfl⟩ := Option.map_eq_some_iff.mp h
          rfl

/-- A relation every step from a reachable state satisfies holds between
every two consecutive states of a trace. -/
theorem trace_isChain {R : σ → σ → Prop}
    (hR : ∀ s a s', Reachable step Always init s →
      step a s = some s' → R s s') {acts : List α} :
    ∀ {s : σ} {tr : List σ}, Reachable step Always init s →
      trace step s acts = some tr → tr.IsChain R := by
  induction acts with
  | nil =>
      intro s tr _ h
      simp only [trace, Option.some.injEq] at h
      subst h
      exact .singleton s
  | cons a rest ih =>
      intro s tr hr h
      unfold trace at h
      cases ha : step a s with
      | none => simp [ha] at h
      | some s₁ =>
          rw [ha] at h
          obtain ⟨tl, htl, rfl⟩ := Option.map_eq_some_iff.mp h
          have hr₁ : Reachable step Always init s₁ :=
            .step a hr trivial ha
          have hchain := ih hr₁ htl
          have hhead := trace_head htl
          cases tl with
          | nil => cases hhead
          | cons t tl =>
              simp only [List.head?_cons, Option.some.injEq] at hhead
              subst hhead
              exact .cons_cons (hR s a t hr ha) hchain

-- ============================================================ every step

/-- Every step of a run from `s` meets `P`. -/
def Along (step : α → σ → Option σ) (P : α → σ → σ → Prop) :
    σ → List α → Prop
  | _, [] => True
  | s, a :: rest =>
      ∀ s', step a s = some s' → P a s s' ∧ Along step P s' rest

/-- Two properties of steps hold along the same runs when they are
equivalent under an invariant that one of them keeps. -/
theorem along_iff {I : σ → Prop} {P Q : α → σ → σ → Prop}
    (hiff : ∀ a s s', I s → step a s = some s' → (P a s s' ↔ Q a s s'))
    (hkept : ∀ a s s', I s → step a s = some s' → Q a s s' → I s')
    {acts : List α} : ∀ {s : σ}, I s →
      (Along step P s acts ↔ Along step Q s acts) := by
  induction acts with
  | nil => exact fun _ => Iff.rfl
  | cons a rest ih =>
      intro s hI
      unfold Along
      refine forall_congr' fun s' => forall_congr' fun hstep => ?_
      rw [hiff a s s' hI hstep]
      exact and_congr_right fun hq => ih (hkept a s s' hI hstep hq)

/-- What is equivalent for every step from a reachable state is
equivalent along every run. -/
theorem along_congr {init : σ} {P Q : α → σ → σ → Prop}
    (h : ∀ a s s', Reachable step Always init s → step a s = some s' →
      (P a s s' ↔ Q a s s')) {acts : List α} :
    ∀ {s : σ}, Reachable step Always init s →
      (Along step P s acts ↔ Along step Q s acts) :=
  along_iff h fun a _ _ hr hstep _ => .step a hr trivial hstep

/-- A property of every step holds of the last one. -/
theorem along_snoc {P : α → σ → σ → Prop} {a : α} {acts : List α} :
    ∀ {s s₁ s₂ : σ}, Along step P s (acts ++ [a]) →
      run step s acts = some s₁ → step a s₁ = some s₂ → P a s₁ s₂ := by
  induction acts with
  | nil =>
      intro s s₁ s₂ h hrun hstep
      simp only [run, Option.some.injEq] at hrun
      subst hrun
      exact (h s₂ hstep).1
  | cons b rest ih =>
      intro s s₁ s₂ h hrun hstep
      unfold run at hrun
      cases hb : step b s with
      | none => simp [hb] at hrun
      | some s' =>
          rw [hb] at hrun
          exact ih (h s' hb).2 hrun hstep

-- ===================================================================== costs

/-- When every step costs no more than it lowers a rank by, a run costs
no more than the rank of its start. -/
theorem run_cost_le (rank : σ → Nat) (cost : α → Nat) {P : σ → Prop}
    (hstep : ∀ a s s', P s → step a s = some s' →
      P s' ∧ cost a + rank s' ≤ rank s) {acts : List α} :
    ∀ {s s' : σ}, P s → run step s acts = some s' →
      (acts.map cost).sum + rank s' ≤ rank s := by
  induction acts with
  | nil =>
      intro s s' _ h
      simp only [run, Option.some.injEq] at h
      rw [h]
      simp
  | cons a rest ih =>
      intro s s' hP h
      unfold run at h
      cases ha : step a s with
      | none => simp [ha] at h
      | some s₁ =>
          rw [ha] at h
          obtain ⟨hP₁, hcost⟩ := hstep a s s₁ hP ha
          have hrest := ih hP₁ h
          rw [List.map_cons, List.sum_cons]
          omega

-- ========================================================= counting steps

section Counting

variable {p q : α → σ → σ → Bool}

/-- How many steps of a run meet `p`. -/
def countSteps (step : α → σ → Option σ) (p : α → σ → σ → Bool) :
    σ → List α → Nat
  | _, [] => 0
  | s, a :: rest =>
      match step a s with
      | some s' => (p a s s').toNat + countSteps step p s' rest
      | none => 0

/-- A relation between a state and two counts, kept by every step, holds
at the end of a run of the counts over the whole run. -/
theorem countSteps_invariant {P : σ → Nat → Nat → Prop}
    (hstep : ∀ s a s' m n, P s m n → step a s = some s' →
      P s' (m + (p a s s').toNat) (n + (q a s s').toNat))
    {acts : List α} : ∀ {s s' : σ} {m n : Nat}, P s m n →
      run step s acts = some s' →
      P s' (m + countSteps step p s acts)
        (n + countSteps step q s acts) := by
  induction acts with
  | nil =>
      intro s s' m n hP h
      simp only [run, Option.some.injEq] at h
      subst h
      exact hP
  | cons a rest ih =>
      intro s s' m n hP h
      unfold run at h
      cases ha : step a s with
      | none => simp [ha] at h
      | some s₁ =>
          rw [ha] at h
          have hrest := ih (hstep s a s₁ m n hP ha) h
          simp only [countSteps, ha]
          rw [← Nat.add_assoc, ← Nat.add_assoc]
          exact hrest

/-- A run of guarded steps is a run, and counts as one. -/
theorem run_of_guarded {G : α → σ → Prop} [∀ a s, Decidable (G a s)]
    {acts : List α} : ∀ {s s' : σ},
      run (guarded step G) s acts = some s' →
      run step s acts = some s'
        ∧ countSteps (guarded step G) p s acts
          = countSteps step p s acts := by
  induction acts with
  | nil => exact fun h => ⟨h, rfl⟩
  | cons a rest ih =>
      intro s s' h
      unfold run guarded at h
      by_cases hg : G a s
      · rw [if_pos hg] at h
        cases ha : step a s with
        | none => simp [ha] at h
        | some s₁ =>
            rw [ha] at h
            obtain ⟨hrun, hcount⟩ := ih h
            unfold run countSteps guarded
            rw [if_pos hg, ha]
            exact ⟨hrun, congrArg ((p a s s₁).toNat + ·) hcount⟩
      · rw [if_neg hg] at h
        cases h

end Counting

-- ======================================================= collecting output

section Collecting

variable {β : Type u} {f : α → σ → List β}

/-- What the steps of a run put out, in order. -/
def collect (step : α → σ → Option σ) (f : α → σ → List β) :
    σ → List α → List β
  | _, [] => []
  | s, a :: rest =>
      match step a s with
      | some s' => f a s ++ collect step f s' rest
      | none => []

/-- A relation between a state and what has been put out, kept by every
step, holds at the end of a run of what the whole run put out. -/
theorem collect_invariant {P : σ → List β → Prop}
    (hstep : ∀ s a s' l, P s l → step a s = some s' →
      P s' (l ++ f a s))
    {acts : List α} : ∀ {s s' : σ} {l : List β}, P s l →
      run step s acts = some s' →
      P s' (l ++ collect step f s acts) := by
  induction acts with
  | nil =>
      intro s s' l hP h
      simp only [run, Option.some.injEq] at h
      subst h
      simpa [collect] using hP
  | cons a rest ih =>
      intro s s' l hP h
      unfold run at h
      cases ha : step a s with
      | none => simp [ha] at h
      | some s₁ =>
          rw [ha] at h
          have hrest := ih (hstep s a s₁ l hP ha) h
          simp only [collect, ha]
          rw [← List.append_assoc]
          exact hrest

/-- The same for a run every step of which meets `Q`. -/
theorem collect_along {P : σ → List β → Prop} {Q : α → σ → σ → Prop}
    (hstep : ∀ s a s' l, P s l → Q a s s' → step a s = some s' →
      P s' (l ++ f a s))
    {acts : List α} : ∀ {s s' : σ} {l : List β}, P s l →
      Along step Q s acts → run step s acts = some s' →
      P s' (l ++ collect step f s acts) := by
  induction acts with
  | nil =>
      intro s s' l hP _ h
      simp only [run, Option.some.injEq] at h
      subst h
      simpa [collect] using hP
  | cons a rest ih =>
      intro s s' l hP hQ h
      unfold run at h
      cases ha : step a s with
      | none => simp [ha] at h
      | some s₁ =>
          rw [ha] at h
          obtain ⟨hfirst, hrest⟩ := hQ s₁ ha
          have hdone := ih (hstep s a s₁ l hP hfirst ha) hrest h
          simpa [collect, ha] using hdone

end Collecting

-- ======================================================= leaving out steps

/-- A run simulates itself without some of its actions, when a relation
to the shorter run is kept by the steps both take and by those that are
left out. -/
theorem run_filter {keep : α → Bool} {R : σ → σ → Prop} {acts : List α}
    (hkept : ∀ a ∈ acts, keep a = true → ∀ s t s', R s t →
      step a s = some s' → ∃ t', step a t = some t' ∧ R s' t')
    (hleft : ∀ a ∈ acts, keep a = false → ∀ s t s', R s t →
      step a s = some s' → R s' t) :
    ∀ {s t s' : σ}, R s t → run step s acts = some s' →
      ∃ t', run step t (acts.filter keep) = some t' ∧ R s' t' := by
  induction acts with
  | nil =>
      intro s t s' hR h
      simp only [run, Option.some.injEq] at h
      subst h
      exact ⟨t, rfl, hR⟩
  | cons a rest ih =>
      intro s t s' hR h
      unfold run at h
      cases ha : step a s with
      | none => simp [ha] at h
      | some s₁ =>
          rw [ha] at h
          have ih := @ih (fun b hb => hkept b (List.mem_cons_of_mem a hb))
            (fun b hb => hleft b (List.mem_cons_of_mem a hb))
          cases hk : keep a with
          | true =>
              obtain ⟨t₁, ht₁, hR₁⟩ :=
                hkept a List.mem_cons_self hk s t s₁ hR ha
              obtain ⟨t', ht', hR'⟩ := ih hR₁ h
              refine ⟨t', ?_, hR'⟩
              rw [List.filter_cons_of_pos hk]
              unfold run
              rw [ht₁]
              exact ht'
          | false =>
              rw [List.filter_cons_of_neg (by simp [hk])]
              exact ih (hleft a List.mem_cons_self hk s t s₁ hR ha) h

-- ====================================================== observing a trace

section Observing

variable {β : Type u} {f : σ → Option β}

/-- What a partial observation sees along a trace, when one step relates
each value seen to the next. -/
theorem filterMap_isChain {Q : β → β → Prop} {tr : List σ}
    (h : tr.IsChain fun s s' =>
      ∀ b, f s = some b → ∃ b', f s' = some b' ∧ Q b b') :
    (tr.filterMap f).IsChain Q := by
  induction tr with
  | nil => exact .nil
  | cons s rest ih =>
      cases rest with
      | nil =>
          cases hs : f s with
          | none => simp [hs]
          | some b => simp [hs]
      | cons s' rest =>
          obtain ⟨hstep, hrest⟩ := List.isChain_cons_cons.mp h
          have hchain := ih hrest
          cases hs : f s with
          | none =>
              rw [List.filterMap_cons_none hs]
              exact hchain
          | some b =>
              obtain ⟨b', hb', hq⟩ := hstep b hs
              rw [List.filterMap_cons_some hs]
              rw [List.filterMap_cons_some hb'] at hchain ⊢
              exact .cons_cons hq hchain

/-- The first value a partial observation sees, when it can only appear
with `B`. -/
theorem filterMap_head {B : β → Prop} {s : σ} {tr : List σ}
    (h : (s :: tr).IsChain fun s s' =>
      f s = none → ∀ b, f s' = some b → B b) (h₀ : f s = none) :
    ∀ b ∈ ((s :: tr).filterMap f).head?, B b := by
  induction tr generalizing s with
  | nil =>
      intro b hb
      simp [h₀] at hb
  | cons s' rest ih =>
      obtain ⟨hstep, hrest⟩ := List.isChain_cons_cons.mp h
      intro b hb
      rw [List.filterMap_cons_none h₀] at hb
      cases hs' : f s' with
      | none => exact ih hrest hs' b hb
      | some b' =>
          rw [List.filterMap_cons_some hs'] at hb
          injection hb with hb
          exact hb ▸ hstep h₀ b' hs'

/-- The values a sequence takes, repetitions of one value counted
once. -/
def changes [DecidableEq β] (l : List β) : List β :=
  l.destutter (· ≠ ·)

theorem destutter'_head [DecidableEq β] (b : β) (l : List β) :
    (l.destutter' (· ≠ ·) b).head? = some b := by
  induction l with
  | nil => rfl
  | cons c rest ih =>
      by_cases hbc : b ≠ c
      · rw [List.destutter'_cons_pos rest hbc]
        rfl
      · rw [List.destutter'_cons_neg rest hbc]
        exact ih

theorem destutter'_isChain [DecidableEq β] {R : β → β → Prop} {b : β}
    {l : List β} (h : (b :: l).IsChain fun x y => x = y ∨ R x y) :
    (l.destutter' (· ≠ ·) b).IsChain R := by
  induction l generalizing b with
  | nil => exact .singleton b
  | cons c rest ih =>
      obtain ⟨hstep, hrest⟩ := List.isChain_cons_cons.mp h
      by_cases hbc : b = c
      · -- a repetition is dropped
        subst hbc
        rw [List.destutter'_cons_neg rest (not_not.mpr rfl)]
        exact ih hrest
      · have hchain := ih hrest
        have hhead := destutter'_head c rest
        rw [List.destutter'_cons_pos rest hbc]
        cases hl : rest.destutter' (· ≠ ·) c with
        | nil => exact .singleton b
        | cons d l' =>
            rw [hl] at hchain hhead
            injection hhead with hhead
            subst hhead
            exact .cons_cons (hstep.resolve_left hbc) hchain

/-- Steps that repeat or move along `R` change along `R`. -/
theorem changes_isChain [DecidableEq β] {R : β → β → Prop} {l : List β}
    (h : l.IsChain fun x y => x = y ∨ R x y) :
    (changes l).IsChain R := by
  cases l with
  | nil => exact .nil
  | cons b l => exact destutter'_isChain h

/-- The first value is kept. -/
theorem changes_head [DecidableEq β] (l : List β) :
    (changes l).head? = l.head? := by
  cases l with
  | nil => rfl
  | cons b l => exact destutter'_head b l

end Observing

end Lts
