/-
Dictionaries of the latest value of each key.

# Latest values

Values have a rank. `latest` of a list is the last of those that no
other one outranks (`latest_eq_some`): a later value of the same rank
wins.

# Putting

`put` keeps a value under its key unless the one there outranks it. What
a list of puts leaves under a key is the latest of what was there and of
the values of the key (`lookup_puts`). A list that is put a second time
changes nothing (`latest_again`), and where values of one rank are equal,
neither order nor repetition matters (`latest_of_coherent`).
-/
import Mathlib.Data.List.Induction
import Mathlib.Order.Lattice

namespace LatestWins

universe u v w

variable {α : Type u} {κ : Type v} {ν : Type w} [DecidableEq κ]
  [LinearOrder ν]

/-- The later of two values, unless the earlier outranks it. -/
def later (rank : α → ν) (o : Option α) (a : α) : Option α :=
  match o with
  | none => some a
  | some b => if rank b ≤ rank a then some a else some b

/-- The last of the values of the highest rank. -/
def latest (rank : α → ν) (l : List α) : Option α :=
  l.foldl (later rank) none

/-- `d[k] = a`. -/
def assign (k : κ) (a : α) : List (κ × α) → List (κ × α)
  | [] => [(k, a)]
  | e :: d => if e.1 = k then (k, a) :: d else e :: assign k a d

/-- Keep a value under its key, unless the one there outranks it. -/
def put (key : α → κ) (rank : α → ν) (d : List (κ × α)) (a : α) :
    List (κ × α) :=
  match d.lookup (key a) with
  | none => assign (key a) a d
  | some b => if rank b ≤ rank a then assign (key a) a d else d

/-- No value outranks this one, and no later one reaches it. -/
def IsLatest (rank : α → ν) (l : List α) (a : α) : Prop :=
  ∃ pre post, l = pre ++ a :: post ∧ (∀ b ∈ pre, rank b ≤ rank a)
    ∧ ∀ b ∈ post, rank b < rank a

/-- Values of one rank are equal. -/
def Coherent (rank : α → ν) (l : List α) : Prop :=
  ∀ a ∈ l, ∀ b ∈ l, rank a = rank b → a = b

-- ================================================================== latest

section Latest

variable {rank : α → ν} {l m : List α} {o o' : Option α} {a b : α}

theorem later_none : later rank none a = some a := rfl

theorem later_some : later rank (some b) a
    = if rank b ≤ rank a then some a else some b := rfl

theorem later_self : later rank (later rank o a) a = later rank o a := by
  cases o with
  | none => exact if_pos le_rfl
  | some b =>
      unfold later
      by_cases hle : rank b ≤ rank a
      · simp only [if_pos hle]
        exact if_pos le_rfl
      · simp only [if_neg hle]

/-- A value may be compared with the later of two, or with both. -/
theorem later_assoc : (later rank o b).elim o' (later rank o')
    = later rank (o.elim o' (later rank o')) b := by
  cases o with
  | none => rfl
  | some a =>
      unfold later
      by_cases hab : rank a ≤ rank b
      · cases o' with
        | none => simp [hab]
        | some c =>
            by_cases hca : rank c ≤ rank a
            · simp [hab, hca, le_trans hca hab]
            · simp [hab, hca]
      · cases o' with
        | none => simp [hab]
        | some c =>
            by_cases hca : rank c ≤ rank a
            · simp [hab, hca]
            · have hcb : ¬ rank c ≤ rank b :=
                not_le.mpr (lt_trans (not_le.mp hab) (not_le.mp hca))
              simp [hab, hca, hcb]

theorem latest_concat : latest rank (l ++ [a])
    = later rank (latest rank l) a := by
  unfold latest
  rw [List.foldl_append, List.foldl_cons, List.foldl_nil]

/-- The latest of two lists, by the latest of the second. -/
theorem latest_append : latest rank (l ++ m)
    = (latest rank m).elim (latest rank l) (later rank (latest rank l)) :=
  by
  induction m using List.reverseRecOn with
  | nil =>
      rw [List.append_nil]
      rfl
  | append_singleton m a ih =>
      rw [← List.append_assoc, latest_concat, latest_concat, ih,
        later_assoc]

theorem latest_eq_none : latest rank l = none ↔ l = [] := by
  induction l using List.reverseRecOn with
  | nil => exact ⟨fun _ => rfl, fun _ => rfl⟩
  | append_singleton l a _ =>
      rw [latest_concat]
      refine ⟨fun h => ?_, fun h => absurd h (by simp)⟩
      unfold later at h
      split at h
      · cases h
      · split at h <;> cases h

theorem IsLatest.mem (h : IsLatest rank l a) : a ∈ l := by
  obtain ⟨pre, post, rfl, -⟩ := h
  exact List.mem_append_right _ List.mem_cons_self

theorem IsLatest.le (h : IsLatest rank l a) (hb : b ∈ l) :
    rank b ≤ rank a := by
  obtain ⟨pre, post, rfl, hpre, hpost⟩ := h
  rcases List.mem_append.mp hb with hb | hb
  · exact hpre b hb
  · rcases List.mem_cons.mp hb with rfl | hb
    · exact le_rfl
    · exact le_of_lt (hpost b hb)

theorem isLatest_of_latest (h : latest rank l = some a) :
    IsLatest rank l a := by
  induction l using List.reverseRecOn generalizing a with
  | nil => cases h
  | append_singleton l b ih =>
      rw [latest_concat] at h
      cases hl : latest rank l with
      | none =>
          rw [hl] at h
          obtain rfl := Option.some.inj h
          obtain rfl := latest_eq_none.mp hl
          exact ⟨[], [], rfl, by simp, by simp⟩
      | some c =>
          rw [hl, later_some] at h
          by_cases hcb : rank c ≤ rank b
          · rw [if_pos hcb] at h
            obtain rfl := Option.some.inj h
            exact ⟨l, [], rfl, fun x hx => le_trans ((ih hl).le hx) hcb,
              by simp⟩
          · rw [if_neg hcb] at h
            obtain rfl := Option.some.inj h
            obtain ⟨pre, post, rfl, hpre, hpost⟩ := ih hl
            refine ⟨pre, post ++ [b], by simp, hpre, fun x hx => ?_⟩
            rcases List.mem_append.mp hx with hx | hx
            · exact hpost x hx
            · rw [List.mem_singleton.mp hx]
              exact not_le.mp hcb

/-- What `latest` finds: nothing outranks it, and what comes after has a
lower rank. -/
theorem latest_eq_some : latest rank l = some a ↔ IsLatest rank l a := by
  refine ⟨isLatest_of_latest, ?_⟩
  rintro ⟨pre, post, rfl, hpre, hpost⟩
  have hlast : latest rank (pre ++ [a]) = some a := by
    rw [latest_concat]
    cases hb : latest rank pre with
    | none => rfl
    | some b => exact if_pos (hpre b (isLatest_of_latest hb).mem)
  have hrest : ∀ post : List α, (∀ b ∈ post, rank b < rank a) →
      post.foldl (later rank) (some a) = some a := by
    intro post hpost
    induction post with
    | nil => rfl
    | cons b post ih =>
        rw [List.foldl_cons, later_some,
          if_neg (not_le.mpr (hpost b List.mem_cons_self))]
        exact ih fun x hx => hpost x (List.mem_cons_of_mem _ hx)
  rw [List.append_cons, latest, List.foldl_append]
  exact (congrArg (List.foldl (later rank) · post) hlast).trans
    (hrest post hpost)

/-- A list taken a second time adds nothing. -/
theorem latest_again : latest rank (l ++ m ++ m)
    = latest rank (l ++ m) := by
  rw [latest_append (l := l ++ m), latest_append]
  cases latest rank m with
  | none => rfl
  | some a => exact later_self

/-- Ranks only grow. -/
theorem latest_mono (h : latest rank l = some a) :
    ∃ b, latest rank (l ++ m) = some b ∧ rank a ≤ rank b := by
  cases hlast : latest rank (l ++ m) with
  | none =>
      have hnil := (List.append_eq_nil_iff.mp (latest_eq_none.mp hlast)).1
      rw [hnil] at h
      cases h
  | some b =>
      have hmem := (isLatest_of_latest h).mem
      exact ⟨b, rfl, (isLatest_of_latest hlast).le
        (List.mem_append_left m hmem)⟩

/-- Of coherent values the latest is told by which there are. -/
theorem latest_of_coherent (hl : Coherent rank l)
    (hmem : ∀ a, a ∈ l ↔ a ∈ m) : latest rank l = latest rank m := by
  cases hlast : latest rank l with
  | none =>
      have hnil := latest_eq_none.mp hlast
      have hm : m = [] := List.eq_nil_iff_forall_not_mem.mpr fun a ha => by
        rw [← hmem, hnil] at ha
        cases ha
      exact (latest_eq_none.mpr hm).symm
  | some a =>
      have ha := isLatest_of_latest hlast
      cases hlast' : latest rank m with
      | none =>
          have hmem' := (hmem a).mp ha.mem
          rw [latest_eq_none.mp hlast'] at hmem'
          cases hmem'
      | some b =>
          have hb := isLatest_of_latest hlast'
          have hmem' := (hmem b).mpr hb.mem
          have hrank := le_antisymm (hb.le ((hmem a).mp ha.mem))
            (ha.le hmem')
          rw [hl a ha.mem b hmem' hrank]

end Latest

-- ============================================================ dictionaries

section Dictionaries

variable {key : α → κ} {rank : α → ν} {d : List (κ × α)} {k k' : κ} {a : α}
  {l m : List α}

theorem lookup_assign : (assign k a d).lookup k'
    = if k = k' then some a else d.lookup k' := by
  induction d with
  | nil =>
      unfold assign
      by_cases hk : k = k'
      · simp [hk]
      · have hk' : (k' == k) = false := beq_false_of_ne (Ne.symm hk)
        simp [hk, List.lookup_cons, hk']
  | cons e d ih =>
      unfold assign
      by_cases he : e.1 = k
      · rw [if_pos he, List.lookup_cons, List.lookup_cons]
        by_cases hk : k = k'
        · simp [hk]
        · have hk' : (k' == k) = false := beq_false_of_ne (Ne.symm hk)
          simp [hk, hk', he]
      · rw [if_neg he, List.lookup_cons, List.lookup_cons, ih]
        by_cases hk : k = k'
        · have hne : (k' == e.1) = false :=
            beq_false_of_ne (hk ▸ Ne.symm he)
          simp [hk, hne]
        · simp [hk]

theorem lookup_put : (put key rank d a).lookup k
    = if key a = k then later rank (d.lookup k) a else d.lookup k := by
  unfold put
  cases hd : d.lookup (key a) with
  | none =>
      rw [lookup_assign]
      by_cases hk : key a = k
      · rw [if_pos hk, if_pos hk, ← hk, hd]
        rfl
      · rw [if_neg hk, if_neg hk]
  | some b =>
      simp only
      by_cases hk : key a = k
      · rw [if_pos hk, ← hk, hd, later_some]
        by_cases hle : rank b ≤ rank a
        · rw [if_pos hle, if_pos hle, lookup_assign, if_pos rfl]
        · rw [if_neg hle, if_neg hle, hd]
      · rw [if_neg hk]
        by_cases hle : rank b ≤ rank a
        · rw [if_pos hle, lookup_assign, if_neg hk]
        · rw [if_neg hle]

/-- What puts leave under a key. -/
theorem lookup_puts : (l.foldl (put key rank) d).lookup k
    = latest rank ((d.lookup k).toList ++ l.filter (key · = k)) := by
  induction l using List.reverseRecOn with
  | nil =>
      rw [List.foldl_nil, List.filter_nil, List.append_nil]
      cases d.lookup k <;> rfl
  | append_singleton l a ih =>
      rw [List.foldl_append, List.foldl_cons, List.foldl_nil, lookup_put,
        List.filter_append, ← List.append_assoc, ih]
      by_cases hk : key a = k
      · rw [if_pos hk, List.filter_cons_of_pos (by simpa using hk),
          List.filter_nil, latest_concat]
      · rw [if_neg hk, List.filter_cons_of_neg (by simpa using hk),
          List.filter_nil, List.append_nil]

end Dictionaries

end LatestWins
