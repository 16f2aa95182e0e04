/-
Pre- and postconditions of programs with a state and exceptions,
`StateT σ (Except ε)`.

# The two predicates

`Wlp x Q s`: if `x` returns from `s`, what it returns and the state it
leaves meet `Q`. `Wp x Q s`: it does return, and they do. What a program
that raises has done to the state is not said: its caller discards it.

# The rules

Both go through a program statement by statement (`wlp_bind`,
`wp_bind`); a loop needs an invariant (`Wlp.forM`, `Wlp.mapM`, `Wp.forM`,
`Wp.mapM`), which for `mapM` may speak of the results so far and for
`Wlp.mapM_done` also of the elements they are of. A program
that returns meets what `Wlp` says of it (`Wp.of_wlp`). `Returns` is
`Wlp` of a computation without a state, `Succeeds` says that it returns;
`exists_mapM_some` says when a `mapM` of options does.

# Relations

`Leads R x`: the state `x` leaves is one `R` leads to from the state it
starts in. For a preorder this goes through statements and loops without
an invariant.
-/
import Mathlib.Order.Defs.Unbundled
import Mathlib.Tactic.Common

namespace Programs

universe u

variable {σ ε α β : Type u} {x : StateT σ (Except ε) α}
  {f : α → StateT σ (Except ε) β} {s : σ}

/-- If it returns, `Q` holds. -/
def Wlp (x : StateT σ (Except ε) α) (Q : α → σ → Prop) (s : σ) : Prop :=
  ∀ a s', x s = .ok (a, s') → Q a s'

/-- It returns, and `Q` holds. -/
def Wp (x : StateT σ (Except ε) α) (Q : α → σ → Prop) (s : σ) : Prop :=
  ∃ a s', x s = .ok (a, s') ∧ Q a s'

-- ============================================================== statements

section Statements

variable {Q Q' : α → σ → Prop} {R : β → σ → Prop}

theorem Wlp.mono (h : Wlp x Q s) (hQ : ∀ a s', Q a s' → Q' a s') :
    Wlp x Q' s := fun a s' hx => hQ a s' (h a s' hx)

theorem Wp.mono (h : Wp x Q s) (hQ : ∀ a s', Q a s' → Q' a s') :
    Wp x Q' s := by
  obtain ⟨a, s', hx, hq⟩ := h
  exact ⟨a, s', hx, hQ a s' hq⟩

theorem Wlp.and (h : Wlp x Q s) (h' : Wlp x Q' s) :
    Wlp x (fun a s' => Q a s' ∧ Q' a s') s :=
  fun a s' hx => ⟨h a s' hx, h' a s' hx⟩

/-- What holds whenever a program returns holds when it does. -/
theorem Wp.of_wlp (h : Wp x Q s) (h' : Wlp x Q' s) :
    Wp x (fun a s' => Q a s' ∧ Q' a s') s := by
  obtain ⟨a, s', hx, hq⟩ := h
  exact ⟨a, s', hx, hq, h' a s' hx⟩

/-- A program returns one result at most. -/
theorem Wp.wlp (h : Wp x Q s) : Wlp x Q s := by
  obtain ⟨a, s', hx, hq⟩ := h
  intro b s'' hx'
  rw [hx] at hx'
  cases hx'
  exact hq

theorem wlp_pure {a : α} :
    Wlp (pure a : StateT σ (Except ε) α) Q s ↔ Q a s := by
  constructor
  · exact fun h => h a s rfl
  · intro h a' s' hx
    cases hx
    exact h

theorem wp_pure {a : α} :
    Wp (pure a : StateT σ (Except ε) α) Q s ↔ Q a s := by
  constructor
  · rintro ⟨a', s', hx, h⟩
    cases hx
    exact h
  · exact fun h => ⟨a, s, rfl, h⟩

theorem wlp_throw {e : ε} :
    Wlp (throw e : StateT σ (Except ε) α) Q s := (fun _ _ h => by cases h)

theorem wlp_get {Q : σ → σ → Prop} :
    Wlp (get : StateT σ (Except ε) σ) Q s ↔ Q s s := wlp_pure

theorem wp_get {Q : σ → σ → Prop} :
    Wp (get : StateT σ (Except ε) σ) Q s ↔ Q s s := by
  constructor
  · rintro ⟨a', s', hx, h⟩
    cases hx
    exact h
  · exact fun h => ⟨s, s, rfl, h⟩

theorem wlp_modify {g : σ → σ} {Q : PUnit → σ → Prop} :
    Wlp (modify g : StateT σ (Except ε) PUnit) Q s ↔ Q ⟨⟩ (g s) := by
  constructor
  · exact fun h => h ⟨⟩ (g s) rfl
  · intro h a' s' hx
    cases hx
    exact h

theorem wp_modify {g : σ → σ} {Q : PUnit → σ → Prop} :
    Wp (modify g : StateT σ (Except ε) PUnit) Q s ↔ Q ⟨⟩ (g s) := by
  constructor
  · rintro ⟨a', s', hx, h⟩
    cases hx
    exact h
  · exact fun h => ⟨⟨⟩, g s, rfl, h⟩

theorem bind_apply : (x >>= f) s = (x s).bind fun r => f r.1 r.2 := rfl

theorem wlp_bind :
    Wlp (x >>= f) R s ↔ Wlp x (fun a s' => Wlp (f a) R s') s := by
  constructor
  · intro h a s' hx b s'' hf
    exact h b s'' (by rw [bind_apply, hx]; exact hf)
  · intro h b s'' hxf
    rw [bind_apply] at hxf
    cases hx : x s with
    | error e =>
        rw [hx] at hxf
        cases hxf
    | ok r =>
        rw [hx] at hxf
        exact h r.1 r.2 hx b s'' hxf

theorem wp_bind :
    Wp (x >>= f) R s ↔ Wp x (fun a s' => Wp (f a) R s') s := by
  constructor
  · rintro ⟨b, s'', hxf, hR⟩
    rw [bind_apply] at hxf
    cases hx : x s with
    | error e =>
        rw [hx] at hxf
        cases hxf
    | ok r =>
        rw [hx] at hxf
        exact ⟨r.1, r.2, hx, b, s'', hxf, hR⟩
  · rintro ⟨a, s', hx, b, s'', hf, hR⟩
    exact ⟨b, s'', by rw [bind_apply, hx]; exact hf, hR⟩

/-- A computation without a state. -/
theorem wlp_liftM {e : Except ε α} :
    Wlp (liftM e : StateT σ (Except ε) α) Q s ↔ ∀ a, e = .ok a → Q a s := by
  constructor
  · intro h a he
    exact h a s (by rw [he]; rfl)
  · intro h a s' hx
    cases he : e with
    | error err =>
        rw [he] at hx
        cases hx
    | ok a' =>
        rw [he] at hx
        cases hx
        exact h a he

theorem wp_liftM {e : Except ε α} :
    Wp (liftM e : StateT σ (Except ε) α) Q s ↔ ∃ a, e = .ok a ∧ Q a s := by
  constructor
  · rintro ⟨a, s', hx, hq⟩
    cases he : e with
    | error err =>
        rw [he] at hx
        cases hx
    | ok a' =>
        rw [he] at hx
        cases hx
        exact ⟨a, rfl, hq⟩
  · rintro ⟨a, he, hq⟩
    exact ⟨a, s, by rw [he]; rfl, hq⟩

end Statements

-- =================================================================== loops

section Loops

variable {g : α → StateT σ (Except ε) PUnit} {I : σ → Prop}
  {J : List β → σ → Prop}

theorem Wlp.forM {xs : List α} (h : I s)
    (hstep : ∀ a ∈ xs, ∀ s, I s → Wlp (g a) (fun _ s' => I s') s) :
    Wlp (xs.forM g) (fun _ s' => I s') s := by
  induction xs generalizing s with
  | nil => exact wlp_pure.mpr h
  | cons a rest ih =>
      refine wlp_bind.mpr ?_
      refine (hstep a List.mem_cons_self s h).mono fun _ s' hs' => ?_
      exact ih hs' fun b hb => hstep b (List.mem_cons_of_mem a hb)

theorem Wp.forM {xs : List α} (h : I s)
    (hstep : ∀ a ∈ xs, ∀ s, I s → Wp (g a) (fun _ s' => I s') s) :
    Wp (xs.forM g) (fun _ s' => I s') s := by
  induction xs generalizing s with
  | nil => exact wp_pure.mpr h
  | cons a rest ih =>
      refine wp_bind.mpr ?_
      refine (hstep a List.mem_cons_self s h).mono fun _ s' hs' => ?_
      exact ih hs' fun b hb => hstep b (List.mem_cons_of_mem a hb)

/-- A loop whose rounds each make one state of another folds. -/
theorem Wp.forM_foldl {step : σ → α → σ} {xs : List α} (h : I s)
    (hI : ∀ s a, I s → I (step s a))
    (hstep : ∀ a ∈ xs, ∀ s, I s →
      Wp (g a) (fun _ s' => s' = step s a) s) :
    Wp (xs.forM g) (fun _ s' => s' = xs.foldl step s) s := by
  induction xs generalizing s with
  | nil => exact wp_pure.mpr rfl
  | cons a rest ih =>
      refine wp_bind.mpr ?_
      refine (hstep a List.mem_cons_self s h).mono fun _ s' hs' => ?_
      rw [hs', List.foldl_cons]
      exact ih (hI s a h) fun b hb => hstep b (List.mem_cons_of_mem a hb)

/-- The invariant of a loop may speak of the elements done. -/
theorem Wlp.mapM_done {K : List α → List β → σ → Prop} {xs : List α}
    (h : K [] [] s)
    (hstep : ∀ done, ∀ a ∈ xs, ∀ bs s, K done bs s →
      Wlp (f a) (fun b s' => K (done ++ [a]) (bs ++ [b]) s') s) :
    Wlp (xs.mapM f) (K xs) s := by
  suffices hmain : ∀ done bs s, K done bs s →
      Wlp (xs.mapM f) (fun cs s' => K (done ++ xs) (bs ++ cs) s') s from
    hmain [] [] s h
  clear h
  induction xs with
  | nil =>
      intro done bs s h
      rw [List.mapM_nil, wlp_pure, List.append_nil, List.append_nil]
      exact h
  | cons a rest ih =>
      intro done bs s h
      rw [List.mapM_cons, wlp_bind]
      refine (hstep done a List.mem_cons_self bs s h).mono ?_
      intro b s' hs'
      rw [wlp_bind]
      refine (ih (fun done c hc => hstep done c (List.mem_cons_of_mem a hc))
        (done ++ [a]) (bs ++ [b]) s' hs').mono fun cs s'' hs'' => ?_
      rw [wlp_pure]
      rwa [List.append_assoc, List.append_assoc] at hs''

theorem Wlp.mapM {xs : List α} (h : J [] s)
    (hstep : ∀ a ∈ xs, ∀ bs s, J bs s →
      Wlp (f a) (fun b s' => J (bs ++ [b]) s') s) :
    Wlp (xs.mapM f) J s :=
  Wlp.mapM_done (K := fun _ => J) h fun _ => hstep

theorem Wp.mapM {xs : List α} (h : J [] s)
    (hstep : ∀ a ∈ xs, ∀ bs s, J bs s →
      Wp (f a) (fun b s' => J (bs ++ [b]) s') s) :
    Wp (xs.mapM f) J s := by
  suffices hmain : ∀ bs s, J bs s →
      Wp (xs.mapM f) (fun cs s' => J (bs ++ cs) s') s from hmain [] s h
  clear h
  induction xs with
  | nil =>
      intro bs s h
      rw [List.mapM_nil, wp_pure, List.append_nil]
      exact h
  | cons a rest ih =>
      intro bs s h
      rw [List.mapM_cons, wp_bind]
      refine (hstep a List.mem_cons_self bs s h).mono fun b s' hs' => ?_
      rw [wp_bind]
      refine (ih (fun c hc => hstep c (List.mem_cons_of_mem a hc))
        (bs ++ [b]) s' hs').mono fun cs s'' hs'' => ?_
      rw [wp_pure]
      rwa [List.append_assoc] at hs''

/-- A loop over an element whose body never returns does not return. -/
theorem Wlp.mapM_raises {xs : List α} {a : α} (ha : a ∈ xs) (h : I s)
    (hstep : ∀ b ∈ xs, ∀ s, I s → Wlp (f b) (fun _ s' => I s') s)
    (hraises : ∀ s, I s → Wlp (f a) (fun _ _ => False) s) :
    Wlp (xs.mapM f) (fun _ _ => False) s := by
  induction xs generalizing s with
  | nil => cases ha
  | cons b rest ih =>
      rw [List.mapM_cons, wlp_bind]
      rcases List.mem_cons.mp ha with rfl | hmem
      · exact (hraises s h).mono fun _ _ hfalse => hfalse.elim
      · refine (hstep b List.mem_cons_self s h).mono fun _ s' hs' => ?_
        rw [wlp_bind]
        refine (ih hmem hs' fun c hc => hstep c
          (List.mem_cons_of_mem b hc)).mono fun _ _ hfalse => hfalse.elim

end Loops

-- =============================================================== relations

/-- If it returns, `R` leads to the state it leaves. -/
def Leads (R : σ → σ → Prop) (x : StateT σ (Except ε) α) : Prop :=
  ∀ s, Wlp x (fun _ s' => R s s') s

section Relations

variable {R R' : σ → σ → Prop}

theorem Leads.mono (h : Leads R x) (hR : ∀ s s', R s s' → R' s s') :
    Leads R' x := fun s => (h s).mono fun _ s' => hR s s'

theorem Leads.modify {g : σ → σ} (h : ∀ s, R s (g s)) :
    Leads R (modify g : StateT σ (Except ε) PUnit) :=
  fun s => wlp_modify.mpr (h s)

variable [IsPreorder σ R]

theorem Leads.pure {a : α} :
    Leads R (pure a : StateT σ (Except ε) α) :=
  fun s => wlp_pure.mpr (refl_of R s)

theorem Leads.get : Leads R (get : StateT σ (Except ε) σ) :=
  fun s => wlp_get.mpr (refl_of R s)

theorem Leads.liftM {e : Except ε α} :
    Leads R (liftM e : StateT σ (Except ε) α) :=
  fun s => wlp_liftM.mpr fun _ _ => refl_of R s

theorem Leads.bind (hx : Leads R x) (hf : ∀ a, Leads R (f a)) :
    Leads R (x >>= f) := by
  intro s
  refine wlp_bind.mpr ((hx s).mono fun a s' hs' => ?_)
  exact (hf a s').mono fun _ _ hs'' => trans_of R hs' hs''

theorem Leads.forM {g : α → StateT σ (Except ε) PUnit} {xs : List α}
    (h : ∀ a ∈ xs, Leads R (g a)) : Leads R (xs.forM g) := by
  intro s
  refine Wlp.forM (I := R s) (refl_of R s) fun a ha s' hs' => ?_
  exact (h a ha s').mono fun _ _ hs'' => trans_of R hs' hs''

theorem Leads.mapM {xs : List α} (h : ∀ a ∈ xs, Leads R (f a)) :
    Leads R (xs.mapM f) := by
  intro s
  refine Wlp.mapM (J := fun _ => R s) (refl_of R s) ?_
  exact fun a ha _ s' hs' => (h a ha s').mono
    fun _ _ hs'' => trans_of R hs' hs''

end Relations

-- ========================================================= without a state

section Stateless

variable {y : Except ε α} {h : α → Except ε β} {S : α → Prop}
  {T : β → Prop}

/-- If it returns, `S` holds. -/
def Returns (y : Except ε α) (S : α → Prop) : Prop := ∀ a, y = .ok a → S a

theorem returns_ok {a : α} (h : S a) :
    Returns (.ok a : Except ε α) S := by
  intro b hb
  cases hb
  exact h

theorem returns_error {e : ε} : Returns (.error e : Except ε α) S :=
  fun _ h => by cases h

theorem Returns.bind (hy : Returns y S) (hh : ∀ a, S a → Returns (h a) T) :
    Returns (y >>= h) T := by
  intro b hb
  cases hya : y with
  | error e =>
      rw [hya] at hb
      cases hb
  | ok a =>
      rw [hya] at hb
      exact hh a (hy a hya) b hb

/-- What the body keeps, the loop keeps. -/
theorem Returns.foldlM {f : β → α → Except ε β} {xs : List α}
    (hf : ∀ b, T b → ∀ a ∈ xs, Returns (f b a) T) {b : β} (hb : T b) :
    Returns (xs.foldlM f b) T := by
  induction xs generalizing b with
  | nil => exact returns_ok hb
  | cons a rest ih =>
      rw [List.foldlM_cons]
      refine Returns.bind (hf b hb a List.mem_cons_self) ?_
      exact fun b' hb' =>
        ih (fun c hc d hd => hf c hc d (List.mem_cons_of_mem a hd)) hb'

/-- What every result is, all results are. -/
theorem Returns.mapM {xs : List α} (hh : ∀ a ∈ xs, Returns (h a) T) :
    Returns (xs.mapM h) (fun bs => ∀ b ∈ bs, T b) := by
  induction xs with
  | nil =>
      rw [List.mapM_nil]
      exact returns_ok (fun _ h => by cases h)
  | cons a rest ih =>
      rw [List.mapM_cons]
      refine Returns.bind (hh a List.mem_cons_self) fun b hb => ?_
      refine Returns.bind
        (ih fun c hc => hh c (List.mem_cons_of_mem a hc)) fun bs hbs => ?_
      refine returns_ok fun c hc => ?_
      rcases List.mem_cons.mp hc with rfl | hc
      · exact hb
      · exact hbs c hc

/-- It returns. -/
def Succeeds (y : Except ε α) : Prop := ∃ a, y = .ok a

theorem succeeds_ok {a : α} : Succeeds (.ok a : Except ε α) := ⟨a, rfl⟩

theorem succeeds_of_map {y : Except ε α} {f : α → β}
    (h : Succeeds (y.map f)) : Succeeds y := by
  obtain ⟨b, hb⟩ := h
  cases y with
  | error e => cases hb
  | ok a => exact succeeds_ok

theorem not_succeeds_error {e : ε} :
    ¬ Succeeds (.error e : Except ε α) := by
  rintro ⟨a, ⟨⟩⟩

/-- What the steps of a computation that returns have returned. -/
theorem returned_bind {b : β} (hb : (y >>= h) = .ok b) :
    ∃ a, y = .ok a ∧ h a = .ok b := by
  cases y with
  | error e => cases hb
  | ok a => exact ⟨a, rfl, hb⟩

theorem ok_bind {a : α} : (Except.ok a >>= h) = h a := rfl

theorem succeeds_bind :
    Succeeds (y >>= h) ↔ ∃ a, y = .ok a ∧ Succeeds (h a) := by
  cases y with
  | error e =>
      constructor
      · exact fun hs => absurd hs not_succeeds_error
      · rintro ⟨a, ha, -⟩
        cases ha
  | ok a =>
      constructor
      · exact fun hs => ⟨a, rfl, hs⟩
      · rintro ⟨b, hb, hs⟩
        cases hb
        exact hs

/-- A loop returns if each round does, whatever it starts from. -/
theorem succeeds_foldlM {f : β → α → Except ε β} {C : α → Prop}
    {xs : List α} (hf : ∀ b, ∀ a ∈ xs, Succeeds (f b a) ↔ C a) {b : β} :
    Succeeds (xs.foldlM f b) ↔ ∀ a ∈ xs, C a := by
  induction xs generalizing b with
  | nil => exact ⟨fun _ _ h => absurd h List.not_mem_nil,
      fun _ => succeeds_ok⟩
  | cons a rest ih =>
      have hrest := fun b c hc => hf b c (List.mem_cons_of_mem a hc)
      rw [List.foldlM_cons, succeeds_bind, List.forall_mem_cons,
        ← hf b a List.mem_cons_self]
      constructor
      · rintro ⟨b', hb', hs⟩
        exact ⟨⟨b', hb'⟩, (ih hrest).mp hs⟩
      · rintro ⟨⟨b', hb'⟩, hall⟩
        exact ⟨b', hb', (ih hrest).mpr hall⟩

/-- So does a `mapM`. -/
theorem succeeds_mapM {f : α → Except ε β} {xs : List α}
    (hf : ∀ a ∈ xs, Succeeds (f a)) : Succeeds (xs.mapM f) := by
  induction xs with
  | nil =>
      rw [List.mapM_nil]
      exact succeeds_ok
  | cons a rest ih =>
      rw [List.mapM_cons]
      refine succeeds_bind.mpr
        ((hf a List.mem_cons_self).imp fun b hb => ⟨hb, ?_⟩)
      exact succeeds_bind.mpr
        ((ih fun c hc => hf c (List.mem_cons_of_mem a hc)).imp
          fun bs hbs => ⟨hbs, succeeds_ok⟩)

/-- What a `mapM` that returns has made of each element. -/
theorem mapM_returned {f : α → Except ε β} {xs : List α} {bs : List β}
    (h : xs.mapM f = .ok bs) :
    List.Forall₂ (fun a b => f a = .ok b) xs bs := by
  induction xs generalizing bs with
  | nil =>
      rw [List.mapM_nil] at h
      cases h
      exact .nil
  | cons a rest ih =>
      rw [List.mapM_cons] at h
      cases hhead : f a with
      | error e =>
          rw [hhead] at h
          cases h
      | ok b =>
          rw [hhead, ok_bind] at h
          cases hrest : rest.mapM f with
          | error e =>
              rw [hrest] at h
              cases h
          | ok more =>
              rw [hrest] at h
              cases h
              exact .cons hhead (ih hrest)

/-- A loop of rounds that return folds. -/
theorem foldlM_ok {f : β → α → Except ε β} {g : β → α → β} {xs : List α}
    (hf : ∀ b, ∀ a ∈ xs, f b a = .ok (g b a)) {b : β} :
    xs.foldlM f b = .ok (xs.foldl g b) := by
  induction xs generalizing b with
  | nil => rfl
  | cons a rest ih =>
      rw [List.foldlM_cons, hf b a List.mem_cons_self]
      exact ih fun b c hc => hf b c (List.mem_cons_of_mem a hc)

end Stateless

-- ================================================================== options

section Options

variable {f : α → Option β} {xs : List α} {bs : List β}

/-- What a `mapM` has made of each element. -/
theorem mapM_some_iff :
    xs.mapM f = some bs ↔ List.Forall₂ (fun a b => f a = some b) xs bs := by
  induction xs generalizing bs with
  | nil =>
      rw [List.mapM_nil]
      constructor
      · intro h
        cases h
        exact .nil
      · intro h
        cases h
        rfl
  | cons a rest ih =>
      rw [List.mapM_cons]
      simp only [Option.bind_eq_bind, Option.bind_eq_some_iff, ih]
      constructor
      · rintro ⟨b, hb, more, hmore, heq⟩
        cases heq
        exact .cons hb hmore
      · intro h
        cases h with
        | cons hb hmore => exact ⟨_, hb, _, hmore, rfl⟩

/-- It has a result if each element has. -/
theorem exists_mapM_some :
    (∃ bs, xs.mapM f = some bs) ↔ ∀ a ∈ xs, ∃ b, f a = some b := by
  simp only [mapM_some_iff]
  induction xs with
  | nil => exact ⟨fun _ _ h => absurd h List.not_mem_nil, fun _ => ⟨[], .nil⟩⟩
  | cons a rest ih =>
      rw [List.forall_mem_cons, ← ih]
      constructor
      · rintro ⟨bs, h⟩
        cases h with
        | cons hb hmore => exact ⟨⟨_, hb⟩, _, hmore⟩
      · rintro ⟨⟨b, hb⟩, more, hmore⟩
        exact ⟨b :: more, .cons hb hmore⟩

end Options

end Programs
