/-
Programs whose state survives an exception, `ExceptT ε (StateM σ)`:
what was done before the `raise` stays done, and the handler that
catches it goes on from there. (`Lib/Programs.lean` has the programs
whose caller discards the state of a call that raised.)

# The predicate

`Ends x Q E s`: `x`, run from `s`, either returns, and what it returns
and the state it leaves meet `Q`, or it raises, and what it raises and
the state it leaves meet `E`.

# The rules

One rule a statement; each is an equivalence, so that a program is gone
through by rewriting. `E` is the same before and after a statement but
in the body of a `tryCatch`, where it is what the handler starts from.

# Invariants and two runs

`Keeps I x`: `x` keeps `I`, however it ends. `Twins x Q E s s'`: run from
the two states `x` ends in the same way, and what it leaves is related by
`Q` or by `E`; this is what confinement is about. The rules go through a
program as those of `Ends` do.
-/
import Mathlib.Tactic.Common

namespace Raising

universe u

variable {σ ε α β : Type u} {x : ExceptT ε (StateM σ) α}
  {f : α → ExceptT ε (StateM σ) β} {Q Q' : α → σ → Prop}
  {R : β → σ → Prop} {E E' : ε → σ → Prop} {s : σ}

/-- Run from a state: how it ends, and the state it leaves. -/
def run (x : ExceptT ε (StateM σ) α) (s : σ) : Except ε α × σ :=
  StateT.run (ExceptT.run x) s

/-- It returns and `Q` holds, or it raises and `E` does. -/
def Ends (x : ExceptT ε (StateM σ) α) (Q : α → σ → Prop)
    (E : ε → σ → Prop) (s : σ) : Prop :=
  match run x s with
  | (.ok a, s') => Q a s'
  | (.error e, s') => E e s'

theorem ends_of_ok {a : α} {s' : σ} (h : run x s = (.ok a, s'))
    (hQ : Q a s') : Ends x Q E s := by
  unfold Ends
  rw [h]
  exact hQ

theorem ends_of_error {e : ε} {s' : σ} (h : run x s = (.error e, s'))
    (hE : E e s') : Ends x Q E s := by
  unfold Ends
  rw [h]
  exact hE

-- ============================================================= conclusions

theorem Ends.ok (h : Ends x Q E s) {a : α} (hx : (run x s).1 = .ok a) :
    Q a (run x s).2 := by
  unfold Ends at h
  split at h
  · rename_i hrun
    rw [hrun] at hx ⊢
    injection hx with hx
    rw [← hx]
    exact h
  · rename_i hrun
    rw [hrun] at hx
    cases hx

/-- What both entail is so at the end. -/
theorem Ends.leaves {P : σ → Prop} (h : Ends x Q E s)
    (hQ : ∀ a s', Q a s' → P s') (hE : ∀ e s', E e s' → P s') :
    P (run x s).2 := by
  unfold Ends at h
  split at h
  · rename_i hrun
    rw [hrun]
    exact hQ _ _ h
  · rename_i hrun
    rw [hrun]
    exact hE _ _ h

theorem Ends.error (h : Ends x Q E s) {e : ε}
    (hx : (run x s).1 = .error e) : E e (run x s).2 := by
  unfold Ends at h
  split at h
  · rename_i hrun
    rw [hrun] at hx
    cases hx
  · rename_i hrun
    rw [hrun] at hx ⊢
    injection hx with hx
    rw [← hx]
    exact h

theorem Ends.mono (h : Ends x Q E s) (hQ : ∀ a s', Q a s' → Q' a s')
    (hE : ∀ e s', E e s' → E' e s') : Ends x Q' E' s := by
  unfold Ends at h ⊢
  split at h
  · exact hQ _ _ h
  · exact hE _ _ h

-- ============================================================== statements

theorem ends_pure {a : α} : Ends (pure a) Q E s ↔ Q a s := Iff.rfl

theorem ends_throw {e : ε} :
    Ends (throw e : ExceptT ε (StateM σ) α) Q E s ↔ E e s := Iff.rfl

theorem ends_get {Q : σ → σ → Prop} :
    Ends (get : ExceptT ε (StateM σ) σ) Q E s ↔ Q s s := Iff.rfl

theorem ends_set {s' : σ} {Q : PUnit → σ → Prop} :
    Ends (set s' : ExceptT ε (StateM σ) PUnit) Q E s ↔ Q ⟨⟩ s' := Iff.rfl

theorem ends_modify {g : σ → σ} {Q : PUnit → σ → Prop} :
    Ends (modify g : ExceptT ε (StateM σ) PUnit) Q E s ↔ Q ⟨⟩ (g s) :=
  Iff.rfl

theorem run_bind : run (x >>= f) s =
    match run x s with
    | (.ok a, s') => run (f a) s'
    | (.error e, s') => (.error e, s') := by
  show (match run x s with
    | (r, s') => StateT.run (ExceptT.bindCont f r) s') = _
  cases run x s with
  | mk r s' =>
      cases r with
      | ok a => rfl
      | error e => rfl

theorem run_get_bind {g : σ → ExceptT ε (StateM σ) β} :
    run (get >>= g) s = run (g s) s := rfl

theorem ends_bind :
    Ends (x >>= f) R E s ↔ Ends x (fun a => Ends (f a) R E) E s := by
  unfold Ends
  rw [run_bind]
  cases run x s with
  | mk r s' =>
      cases r with
      | ok a => exact Iff.rfl
      | error e => exact Iff.rfl

theorem run_tryCatch {h : ε → ExceptT ε (StateM σ) α} :
    run (tryCatch x h) s =
      match run x s with
      | (.ok a, s') => (.ok a, s')
      | (.error e, s') => run (h e) s' := by
  show (match run x s with
    | (r, s') =>
        StateT.run (match r with
          | .ok a => pure (Except.ok a)
          | .error e => h e : StateM σ (Except ε α)) s') = _
  cases run x s with
  | mk r s' =>
      cases r with
      | ok a => rfl
      | error e => rfl

theorem ends_tryCatch {h : ε → ExceptT ε (StateM σ) α} :
    Ends (tryCatch x h) Q E s
      ↔ Ends x Q (fun e => Ends (h e) Q E) s := by
  unfold Ends
  rw [run_tryCatch]
  cases run x s with
  | mk r s' =>
      cases r with
      | ok a => exact Iff.rfl
      | error e => exact Iff.rfl

-- =================================================================== loops

/-- A loop keeps what each round keeps. -/
theorem Ends.forM {I : σ → Prop} {g : α → ExceptT ε (StateM σ) PUnit}
    (hg : ∀ a s, I s → Ends (g a) (fun _ => I) E s) :
    ∀ {xs : List α} {s : σ}, I s → Ends (xs.forM g) (fun _ => I) E s
  | [], _, hI => ends_pure.mpr hI
  | a :: xs, s, hI => by
      show Ends (g a >>= fun _ => xs.forM g) _ _ _
      rw [ends_bind]
      refine (hg a s hI).mono (fun _ s' hI' => ?_) fun _ _ he => he
      exact Ends.forM hg hI'

-- ============================================================== invariants

/-- It keeps `I`, whether it returns or raises. -/
def Keeps (I : σ → Prop) (x : ExceptT ε (StateM σ) α) : Prop :=
  ∀ s, I s → I (run x s).2

section Keeping

variable {I : σ → Prop}

theorem keeps_pure {a : α} :
    Keeps I (pure a : ExceptT ε (StateM σ) α) := fun _ hI => hI

theorem keeps_throw {e : ε} :
    Keeps I (throw e : ExceptT ε (StateM σ) α) := fun _ hI => hI

theorem keeps_get : Keeps I (get : ExceptT ε (StateM σ) σ) :=
  fun _ hI => hI

theorem keeps_modify {g : σ → σ} (hg : ∀ s, I s → I (g s)) :
    Keeps I (modify g : ExceptT ε (StateM σ) PUnit) := hg

theorem Keeps.bind (hx : Keeps I x) (hf : ∀ a, Keeps I (f a)) :
    Keeps I (x >>= f) := by
  intro s hI
  have hI' := hx s hI
  rw [run_bind]
  cases hrun : run x s with
  | mk r s' =>
      rw [hrun] at hI'
      cases r with
      | ok a => exact hf a s' hI'
      | error e => exact hI'

/-- So it holds at the end, in either case. -/
theorem Keeps.ends (h : Keeps I x) (hI : I s) :
    Ends x (fun _ => I) (fun _ => I) s := by
  have hend := h s hI
  unfold Ends
  split
  · rename_i hrun
    rw [hrun] at hend
    exact hend
  · rename_i hrun
    rw [hrun] at hend
    exact hend

end Keeping

-- ================================================================ two runs

/-- From the two states it ends in the same way, in related states. -/
def Twins (x : ExceptT ε (StateM σ) α) (Q : α → σ → σ → Prop)
    (E : ε → σ → σ → Prop) (s s' : σ) : Prop :=
  match run x s, run x s' with
  | (.ok a, t), (.ok b, t') => a = b ∧ Q a t t'
  | (.error e, t), (.error e', t') => e = e' ∧ E e t t'
  | _, _ => False

section Pairs

variable {s' : σ} {Q Q' : α → σ → σ → Prop} {R : β → σ → σ → Prop}
  {E E' : ε → σ → σ → Prop}

theorem twins_pure {a : α} (h : Q a s s') :
    Twins (pure a : ExceptT ε (StateM σ) α) Q E s s' := ⟨rfl, h⟩

theorem twins_throw {e : ε} (h : E e s s') :
    Twins (throw e : ExceptT ε (StateM σ) α) Q E s s' := ⟨rfl, h⟩

/-- What is read is the same in both states. -/
theorem twins_read {g : σ → α} (hg : g s = g s') (h : Q (g s) s s') :
    Twins (do let s ← get; pure (g s) : ExceptT ε (StateM σ) α) Q E s s' :=
  ⟨hg, h⟩

theorem twins_modify {g : σ → σ} {Q : PUnit → σ → σ → Prop}
    (h : Q ⟨⟩ (g s) (g s')) :
    Twins (modify g : ExceptT ε (StateM σ) PUnit) Q E s s' := ⟨rfl, h⟩

theorem twins_bind
    (h : Twins x (fun a => Twins (f a) R E) E s s') :
    Twins (x >>= f) R E s s' := by
  unfold Twins at h ⊢
  rw [run_bind, run_bind]
  cases hrun : run x s with
  | mk r t =>
      cases hrun' : run x s' with
      | mk r' t' =>
          rw [hrun, hrun'] at h
          cases r with
          | ok a =>
              cases r' with
              | ok b =>
                  obtain ⟨hab, hf⟩ := h
                  subst hab
                  exact hf
              | error e => exact h.elim
          | error e =>
              cases r' with
              | ok b => exact h.elim
              | error e' => exact h

theorem Twins.mono (h : Twins x Q E s s')
    (hQ : ∀ a t t', Q a t t' → Q' a t t')
    (hE : ∀ e t t', E e t t' → E' e t t') : Twins x Q' E' s s' := by
  unfold Twins at h ⊢
  split at h
  · exact ⟨h.1, hQ _ _ _ h.2⟩
  · exact ⟨h.1, hE _ _ _ h.2⟩
  · exact h.elim

/-- The two runs end alike. -/
theorem Twins.ends (h : Twins x Q E s s') :
    (run x s).1 = (run x s').1 := by
  unfold Twins at h
  split at h
  · rename_i hrun hrun'
    rw [hrun, hrun', h.1]
  · rename_i hrun hrun'
    rw [hrun, hrun', h.1]
  · exact h.elim

/-- What both relations entail is so at the end. -/
theorem Twins.leaves {P : σ → σ → Prop} (h : Twins x Q E s s')
    (hQ : ∀ a t t', Q a t t' → P t t')
    (hE : ∀ e t t', E e t t' → P t t') : P (run x s).2 (run x s').2 := by
  unfold Twins at h
  split at h
  · rename_i hrun hrun'
    rw [hrun, hrun']
    exact hQ _ _ _ h.2
  · rename_i hrun hrun'
    rw [hrun, hrun']
    exact hE _ _ _ h.2
  · exact h.elim

end Pairs

end Raising
