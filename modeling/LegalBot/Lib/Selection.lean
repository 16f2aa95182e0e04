/-
The first `n` elements of a list under an order with ties, and how long
an element can be passed over.

# A selection

`First r l n xs` says of `xs` all that `ORDER BY r LIMIT n` promises,
whatever it does with ties: `xs` are different elements of `l`, in
order, as many as `n` allows, and what was left out comes after each of
them. `first_take` is the sorted prefix.

# Ties

Two selections differ by ties alone: what one of them has instead of
something else has the same value (`First.exchange`,
`First.exchange_value`), so that the values are the same
(`First.values_eq`).

# Keys

`firstAt key l b` is the place of the first element of key `b`, which
decides whether a prefix has one (`key_mem_take`).

# Cutting off

Of the elements that meet a condition a prefix has those whose places are
in it (`countP_take`). If those that meet it stand in front, it has as
many as fit (`countP_take_sorted`). `Uncut n places` decides whether a
prefix has exactly one of them when the list has (`one_left_iff`).

# Groups

A list without duplicates that is ordered by groups first is, sorted, the
sorted groups one after the other (`insertionSort_groups`).

# Waiting

`ahead r l y` are the others of `l` that may come before `y`. A selection
that passes `y` over is full, and all of it stood ahead of `y`; so as
long as nothing new gets ahead of `y`, each selection that passes it over
brings it forward by a full selection (`First.brings_forward`).
-/
import Mathlib.Data.List.Sort

namespace Selection

universe u

variable {α : Type u} {r : α → α → Prop} {l xs : List α} {n : Nat}

/-- `xs` are the first `n` elements of `l` under `r`. -/
structure First (r : α → α → Prop) (l : List α) (n : Nat)
    (xs : List α) : Prop where
  mem : ∀ x ∈ xs, x ∈ l
  nodup : xs.Nodup
  ordered : xs.Pairwise r
  length : xs.length = min n l.length
  first : ∀ x ∈ xs, ∀ y ∈ l, y ∉ xs → r x y

/-- What comes after a prefix comes after each element of it. -/
theorem pairwise_take_drop {k : Nat} {l : List α} (h : l.Pairwise r)
    {x y : α} (hx : x ∈ l.take k) (hy : y ∈ l.drop k) : r x y := by
  have hsplit : (l.take k ++ l.drop k).Pairwise r := by
    rw [List.take_append_drop]
    exact h
  exact (List.pairwise_append.mp hsplit).2.2 x hx y hy

/-- The prefix of the sorted list is a selection. -/
theorem first_take [DecidableRel r] [Std.Total r] [IsTrans α r]
    (hl : l.Nodup) (n : Nat) :
    First r l n ((l.insertionSort r).take n) := by
  have hsorted : (l.insertionSort r).Pairwise r :=
    List.pairwise_insertionSort r l
  have hperm : (l.insertionSort r).Perm l := List.perm_insertionSort r l
  refine ⟨fun x hx => hperm.mem_iff.mp (List.mem_of_mem_take hx),
    (hperm.nodup_iff.mpr hl).sublist (List.take_sublist n _),
    hsorted.sublist (List.take_sublist n _), ?_, fun x hx y hy hno => ?_⟩
  · rw [List.length_take, List.length_insertionSort]
  · have hy' : y ∈ (l.insertionSort r).take n
        ++ (l.insertionSort r).drop n := by
      rw [List.take_append_drop]
      exact hperm.mem_iff.mpr hy
    rcases List.mem_append.mp hy' with htake | hdrop
    · exact absurd htake hno
    · exact pairwise_take_drop hsorted hx hdrop

/-- A selection that passes an element over is full. -/
theorem First.full (h : First r l n xs) {y : α} (hy : y ∈ l)
    (hno : y ∉ xs) : xs.length = n := by
  have hlt : xs.length < l.length := by
    have hcons : (y :: xs).Nodup := List.nodup_cons.mpr ⟨hno, h.nodup⟩
    have hsub : (y :: xs).Subperm l := by
      refine List.subperm_of_subset hcons fun x hx => ?_
      rcases List.mem_cons.mp hx with rfl | hx
      · exact hy
      · exact h.mem x hx
    exact hsub.length_le
  have hmin := h.length
  omega

-- ======================================================== two selections

section Two

variable {ys : List α} {x : α}

/-- Two selections have the same length. -/
theorem First.length_eq (hx : First r l n xs) (hy : First r l n ys) :
    xs.length = ys.length := hx.length.trans hy.length.symm

/-- What one selection has and another has not, it has instead of
something else. -/
theorem First.exchange (hx : First r l n xs) (hy : First r l n ys)
    (hmem : x ∈ xs) (hno : x ∉ ys) : ∃ y ∈ ys, y ∉ xs := by
  by_contra hnone
  have hsub : ys ⊆ xs := fun y hyin =>
    Classical.byContradiction fun hyno => hnone ⟨y, hyin, hyno⟩
  have hperm : ys.Perm xs := (List.subperm_of_subset hy.nodup
    hsub).perm_of_length_le (Nat.le_of_eq (hx.length_eq hy))
  exact hno (hperm.mem_iff.mpr hmem)

variable {γ : Type*} {f : α → γ}

/-- Lists of one length and one value. -/
theorem map_eq_of_values (hlen : xs.length = ys.length)
    (h : ∀ x ∈ xs, ∀ y ∈ ys, f x = f y) : xs.map f = ys.map f := by
  induction xs generalizing ys with
  | nil =>
      cases ys with
      | nil => rfl
      | cons y ys => cases hlen
  | cons x xs ih =>
      cases ys with
      | nil => cases hlen
      | cons y ys =>
          have hrest : xs.map f = ys.map f :=
            ih (Nat.succ.inj hlen) fun a ha b hb =>
              h a (List.mem_cons_of_mem x ha) b (List.mem_cons_of_mem y hb)
          rw [List.map_cons, List.map_cons, hrest,
            h x List.mem_cons_self y List.mem_cons_self]

variable [LinearOrder γ]

/-- Only elements of one value stand for each other. -/
theorem First.exchange_value
    (hx : First (fun a b => f b ≤ f a) l n xs)
    (hy : First (fun a b => f b ≤ f a) l n ys) {y : α}
    (hxin : x ∈ xs) (hxno : x ∉ ys) (hyin : y ∈ ys) (hyno : y ∉ xs) :
    f x = f y :=
  le_antisymm (hy.first y hyin x (hx.mem x hxin) hxno)
    (hx.first x hxin y (hy.mem y hyin) hyno)

/-- All selections have the same values. -/
theorem First.values_eq [DecidableEq α]
    (hx : First (fun a b => f b ≤ f a) l n xs)
    (hy : First (fun a b => f b ≤ f a) l n ys) : xs.map f = ys.map f := by
  -- what both have, and what one of them has alone
  have hsplit : ∀ zs zs' : List α,
      zs.Perm (zs.filter (· ∈ zs') ++ zs.filter fun z => ¬ z ∈ zs') :=
    fun zs zs' => by
      have hfilter := List.filter_append_perm (fun z => decide (z ∈ zs')) zs
      simpa only [decide_not] using hfilter.symm
  have hboth : (xs.filter (· ∈ ys)).Perm (ys.filter (· ∈ xs)) := by
    refine (List.perm_ext_iff_of_nodup (hx.nodup.filter _)
      (hy.nodup.filter _)).mpr fun z => ?_
    simp only [List.mem_filter, decide_eq_true_eq, and_comm]
  have halone : ((xs.filter fun z => ¬ z ∈ ys).map f)
      = (ys.filter fun z => ¬ z ∈ xs).map f := by
    have hlen : (xs.filter fun z => ¬ z ∈ ys).length
        = (ys.filter fun z => ¬ z ∈ xs).length := by
      have hxs := (hsplit xs ys).length_eq
      have hys := (hsplit ys xs).length_eq
      rw [List.length_append] at hxs hys
      have hlen := hx.length_eq hy
      have hcommon := hboth.length_eq
      omega
    have hvalue : ∀ x ∈ xs.filter fun z => ¬ z ∈ ys,
        ∀ y ∈ ys.filter fun z => ¬ z ∈ xs, f x = f y := by
      intro x hxin y hyin
      obtain ⟨hxin, hxno⟩ := List.mem_filter.mp hxin
      obtain ⟨hyin, hyno⟩ := List.mem_filter.mp hyin
      exact hx.exchange_value hy hxin (of_decide_eq_true hxno) hyin
        (of_decide_eq_true hyno)
    exact map_eq_of_values hlen hvalue
  have hperm : (xs.map f).Perm (ys.map f) := by
    refine ((hsplit xs ys).map f).trans
      (List.Perm.trans ?_ ((hsplit ys xs).map f).symm)
    rw [List.map_append, List.map_append, halone]
    exact (hboth.map f).append_right _
  refine hperm.eq_of_pairwise (fun a b _ _ hab hba => le_antisymm hba hab)
    ?_ ?_
  · exact List.pairwise_map.mpr hx.ordered
  · exact List.pairwise_map.mpr hy.ordered

end Two

-- ============================================================ by first key

variable {β : Type*} [DecidableEq β] {key : α → β}

/-- How many elements come before the first one with key `b`. -/
def firstAt (key : α → β) (l : List α) (b : β) : Nat :=
  (l.takeWhile fun x => key x ≠ b).length

/-- A key of the list is a key of a prefix exactly when its first element
comes early enough. -/
theorem key_mem_take {b : β} {l : List α} (hb : b ∈ l.map key) :
    b ∈ (l.take n).map key ↔ firstAt key l b < n := by
  induction l generalizing n with
  | nil => cases hb
  | cons x rest ih =>
      cases n with
      | zero => simp
      | succ n =>
          unfold firstAt
          by_cases hx : key x = b
          · simp [hx]
          · have hrest : b ∈ rest.map key := by
              rw [List.map_cons, List.mem_cons] at hb
              exact hb.resolve_left fun h => hx h.symm
            have hmem : b ∈ ((x :: rest).take (n + 1)).map key
                ↔ b ∈ (rest.take n).map key := by
              rw [List.take_succ_cons, List.map_cons, List.mem_cons]
              exact or_iff_right fun h => hx h.symm
            rw [hmem, ih hrest, List.takeWhile_cons_of_pos (by simp [hx]),
              List.length_cons, Nat.add_lt_add_iff_right]
            rfl

-- ============================================================= cutting off

section Cutting

variable {p : α → Bool} {l : List α} {n s : Nat} {places : List Nat}

theorem findIdxs_filter_start :
    (l.findIdxs p s).filter (fun i => decide (i < s)) = [] := by
  refine List.filter_eq_nil_iff.mpr fun i hi => ?_
  have hle := List.ge_of_mem_findIdxs i hi
  simp only [decide_eq_true_eq]
  omega

theorem countP_take_start : (l.take n).countP p
    = ((l.findIdxs p s).filter fun i => decide (i < s + n)).length := by
  induction l generalizing n s with
  | nil => simp
  | cons x rest ih =>
      cases n with
      | zero =>
          rw [Nat.add_zero, findIdxs_filter_start]
          rfl
      | succ n =>
          have hnext := ih (n := n) (s := s + 1)
          rw [Nat.add_right_comm] at hnext
          rw [List.take_succ_cons, List.findIdxs_cons]
          by_cases hx : p x = true
          · rw [List.countP_cons_of_pos hx, if_pos hx,
              List.filter_cons_of_pos (by simp), hnext]
            rfl
          · rw [List.countP_cons_of_neg hx, if_neg hx, hnext]
            rfl

/-- A prefix has those whose places are in it. -/
theorem countP_take : (l.take n).countP p
    = ((l.findIdxs p).filter fun i => decide (i < n)).length := by
  have hcount := countP_take_start (p := p) (l := l) (n := n) (s := 0)
  rwa [Nat.zero_add] at hcount

/-- A prefix has as many as fit of those that stand in front. -/
theorem countP_take_sorted
    (h : l.Pairwise fun a b => p b = true → p a = true) :
    (l.take n).countP p = min n (l.countP p) := by
  induction l generalizing n with
  | nil => simp
  | cons x rest ih =>
      obtain ⟨hx, hrest⟩ := List.pairwise_cons.mp h
      cases n with
      | zero => simp
      | succ n =>
          rw [List.take_succ_cons]
          by_cases hp : p x = true
          · rw [List.countP_cons_of_pos hp, List.countP_cons_of_pos hp,
              ih hrest]
            omega
          · have hnone : rest.countP p = 0 :=
              List.countP_eq_zero.mpr fun y hy hpy => hp (hx y hy hpy)
            rw [List.countP_cons_of_neg hp, List.countP_cons_of_neg hp,
              ih hrest, hnone, Nat.min_zero]
            simp

/-- Of places in order, exactly one is below `n` when there is one. -/
def Uncut (n : Nat) : List Nat → Prop
  | [] => True
  | [i] => i < n
  | i :: j :: _ => n ≤ i ∨ j < n

instance : Decidable (Uncut n places) :=
  match places with
  | [] => inferInstanceAs (Decidable True)
  | [i] => inferInstanceAs (Decidable (i < n))
  | i :: j :: _ => inferInstanceAs (Decidable (n ≤ i ∨ j < n))

theorem one_left_iff (h : places.Pairwise (· < ·)) :
    ((places.filter fun i => decide (i < n)).length = 1
      ↔ places.length = 1) ↔ Uncut n places := by
  match places, h with
  | [], _ => simp [Uncut]
  | [i], _ =>
      by_cases hi : i < n <;> simp [Uncut, hi]
  | i :: j :: rest, h =>
      obtain ⟨hi, hj⟩ := List.pairwise_cons.mp h
      have hij : i < j := hi j List.mem_cons_self
      have hlong : (i :: j :: rest).length ≠ 1 := by simp
      by_cases hjn : j < n
      · have hin : i < n := by omega
        have htwo : ((i :: j :: rest).filter
            fun i => decide (i < n)).length ≠ 1 := by
          rw [List.filter_cons_of_pos (by simp [hin]),
            List.filter_cons_of_pos (by simp [hjn])]
          simp
        exact iff_of_true (iff_of_false htwo hlong) (Or.inr hjn)
      · have hrest : (j :: rest).filter (fun i => decide (i < n)) = [] := by
          refine List.filter_eq_nil_iff.mpr fun x hx => ?_
          have hle : j ≤ x := by
            rcases List.mem_cons.mp hx with rfl | hx
            · exact Nat.le_refl _
            · exact Nat.le_of_lt ((List.pairwise_cons.mp hj).1 x hx)
          simp only [decide_eq_true_eq]
          omega
        by_cases hin : i < n
        · have hone : ((i :: j :: rest).filter
              fun i => decide (i < n)).length = 1 := by
            rw [List.filter_cons_of_pos (by simp [hin]), hrest]
            rfl
          refine iff_of_false (fun hiff => hlong (hiff.mp hone)) ?_
          rintro (hle | hlt) <;> omega
        · have hzero : ((i :: j :: rest).filter
              fun i => decide (i < n)).length ≠ 1 := by
            rw [List.filter_cons_of_neg (by simp [hin]), hrest]
            simp
          exact iff_of_true (iff_of_false hzero hlong)
            (Or.inl (Nat.le_of_not_lt hin))

end Cutting

-- ================================================================== groups

section Groups

variable {κ : Type u} {key : α → κ} {keys : List κ} {group : κ → List α}

/-- Sorted groups one after the other are the sorted list. -/
theorem insertionSort_groups [DecidableRel r] [Std.Total r] [IsTrans α r]
    (hl : l.Nodup) (hanti : ∀ a ∈ l, ∀ b ∈ l, r a b → r b a → a = b)
    (hkeys : keys.Pairwise fun k k' => k ≠ k'
      ∧ ∀ a ∈ group k, ∀ b ∈ group k', r a b)
    (hgroup : ∀ k ∈ keys, (group k).Nodup ∧ (group k).Pairwise r)
    (hkey : ∀ k, ∀ a ∈ group k, key a = k)
    (hmem : ∀ a, a ∈ l ↔ ∃ k ∈ keys, a ∈ group k) :
    l.insertionSort r = keys.flatMap group := by
  have hsorted : (keys.flatMap group).Pairwise r :=
    List.pairwise_flatMap.mpr
      ⟨fun k hk => (hgroup k hk).2, hkeys.imp fun h => h.2⟩
  have hnodup : (keys.flatMap group).Nodup := by
    refine List.nodup_flatMap.mpr ⟨fun k hk => (hgroup k hk).1, ?_⟩
    refine hkeys.imp fun {k k'} h a ha ha' => ?_
    exact h.1 ((hkey k a ha).symm.trans (hkey k' a ha'))
  have hperm : (l.insertionSort r).Perm (keys.flatMap group) := by
    refine (List.perm_insertionSort r l).trans
      ((List.perm_ext_iff_of_nodup hl hnodup).mpr fun a => ?_)
    rw [hmem, List.mem_flatMap]
  refine hperm.eq_of_pairwise (fun a b ha hb => ?_)
    (List.pairwise_insertionSort r l) hsorted
  have ha : a ∈ l := (List.perm_insertionSort r l).mem_iff.mp ha
  have hb : b ∈ l := (List.perm_insertionSort r l).mem_iff.mp
    (hperm.mem_iff.mpr hb)
  exact hanti a ha b hb

end Groups

-- ================================================================= waiting

variable [DecidableEq α] [DecidableRel r]

/-- The others of `l` that may come before `y`. -/
def ahead (r : α → α → Prop) [DecidableRel r] (l : List α) (y : α) :
    List α :=
  l.filter fun x => x ≠ y ∧ r x y

theorem mem_ahead {x y : α} :
    x ∈ ahead r l y ↔ x ∈ l ∧ x ≠ y ∧ r x y := by
  unfold ahead
  simp

/-- An element that is passed over is brought forward by a full
selection, as long as nothing new gets ahead of it. -/
theorem First.brings_forward (h : First r l n xs) {l' : List α} {y : α}
    (hy : y ∈ l) (hno : y ∉ xs) (hl' : l'.Nodup)
    (hkept : ∀ x ∈ ahead r l' y, x ∈ l ∧ x ∉ xs) :
    n + (ahead r l' y).length ≤ (ahead r l y).length := by
  have hdisjoint : (xs ++ ahead r l' y).Nodup := by
    refine List.nodup_append.mpr ⟨h.nodup, hl'.filter _, ?_⟩
    rintro x hx z hz rfl
    exact (hkept x hz).2 hx
  have hsub : (xs ++ ahead r l' y).Subperm (ahead r l y) := by
    refine List.subperm_of_subset hdisjoint fun x hx => ?_
    rcases List.mem_append.mp hx with hsel | hrest
    · refine mem_ahead.mpr ⟨h.mem x hsel, ?_, h.first x hsel y hy hno⟩
      rintro rfl
      exact hno hsel
    · obtain ⟨-, hne, hbefore⟩ := mem_ahead.mp hrest
      exact mem_ahead.mpr ⟨(hkept x hrest).1, hne, hbefore⟩
  have hle := hsub.length_le
  rw [List.length_append, h.full hy hno] at hle
  exact hle

end Selection
