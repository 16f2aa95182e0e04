/-
Ranking things by the first row there is of each.

# First rows

`firsts key l` keeps the first row of each key and `topFirsts` the `n`
best of these, in order. Which row of a key comes first is up to the
order of the rows, so the value it shows need not be the best of the key.

# Best rows

`Ranks best l n out`: `out` has the `n` best keys of `l`, each with the
best value of the key (`IsBest`). All orders of `l` lead to such a result
exactly when it is `Settled`: a key whose rows have different values is
passed over for `n` keys that are no worse and have one value each
(`topFirsts_iff`). The order that decides is the ascending one, in which
the first row of a key is its worst.
-/
import LegalBot.Lib.Selection
import LegalBot.Lib.Unique
import Mathlib.Data.List.Dedup

namespace Ranking

open Selection (First)

universe u

variable {α κ : Type u} {β : Type*} [DecidableEq κ]

-- ============================================================== statements

/-- Keep a row unless its key has one. -/
def keepFirst (key : α → κ) (kept : List α) (a : α) : List α :=
  if ∃ b ∈ kept, key b = key a then kept else kept ++ [a]

/-- The first row of each key. -/
def firsts (key : α → κ) (l : List α) : List α :=
  l.foldl (keepFirst key) []

/-- The keys of the rows. -/
def keys (key : α → κ) (l : List α) : List κ := (l.map key).dedup

/-- All rows of a key have its best value. -/
def Uniform (key : α → κ) (value : α → β) (best : κ → β) (l : List α)
    (k : κ) : Prop :=
  ∀ a ∈ l, key a = k → value a = best k

instance [DecidableEq β] (key : α → κ) (value : α → β) (best : κ → β)
    (l : List α) (k : κ) : Decidable (Uniform key value best l k) :=
  List.decidableBAll (fun a => key a = k → value a = best k) l

section Ordered

variable [LinearOrder β] (key : α → κ) (value : α → β) (best : κ → β)

/-- The `n` best of the first rows. -/
def topFirsts (n : Nat) (l : List α) : List α :=
  ((firsts key l).insertionSort fun a b => value b ≤ value a).take n

/-- What is the best of each key. -/
structure IsBest (l : List α) : Prop where
  reached : ∀ a ∈ l, ∃ b ∈ l, key b = key a ∧ value b = best (key a)
  bound : ∀ a ∈ l, value a ≤ best (key a)

/-- The `n` best keys, each with its best value. -/
structure Ranks (l : List α) (n : Nat) (out : List α) : Prop where
  scored : ∀ a ∈ out, value a = best (key a)
  selected : First (fun s t => best t ≤ best s) (keys key l) n
    (out.map key)

/-- The keys of one value that are no worse than a key. -/
def settledOver (l : List α) (k : κ) : List κ :=
  (keys key l).filter fun t =>
    Uniform key value best l t ∧ best k ≤ best t

/-- A key of several values is passed over. -/
def Settled (l : List α) (n : Nat) : Prop :=
  ∀ k ∈ keys key l, Uniform key value best l k
    ∨ n ≤ (settledOver key value best l k).length

instance (l : List α) (n : Nat) :
    Decidable (Settled key value best l n) :=
  List.decidableBAll (fun k => Uniform key value best l k
    ∨ n ≤ (settledOver key value best l k).length) (keys key l)

end Ordered

-- ============================================================== first rows

section Firsts

variable {key : α → κ} {value : α → β} {best : κ → β}
  {l l' kept : List α} {a : α} {k : κ}

theorem mem_keys : k ∈ keys key l ↔ ∃ a ∈ l, key a = k := by
  unfold keys
  rw [List.mem_dedup, List.mem_map]

theorem keys_nodup : (keys key l).Nodup := List.nodup_dedup _

theorem mem_foldl_keepFirst :
    a ∈ l.foldl (keepFirst key) kept ↔ a ∈ kept
      ∨ (∀ b ∈ kept, key b ≠ key a)
        ∧ l.find? (fun b => key b = key a) = some a := by
  induction l generalizing kept with
  | nil => simp
  | cons x rest ih =>
      rw [List.foldl_cons, ih]
      unfold keepFirst
      by_cases hx : ∃ b ∈ kept, key b = key x
      · rw [if_pos hx]
        refine or_congr_right (and_congr_right fun hnew => ?_)
        obtain ⟨b, hb, hkey⟩ := hx
        have hne : key x ≠ key a := hkey ▸ hnew b hb
        rw [List.find?_cons_of_neg (by simpa using hne)]
      · rw [if_neg hx, List.mem_append, List.mem_singleton, or_assoc]
        refine or_congr_right ?_
        by_cases hkey : key x = key a
        · rw [List.find?_cons_of_pos (by simpa using hkey)]
          constructor
          · rintro (rfl | ⟨hnew, -⟩)
            · exact ⟨fun b hb hba => hx ⟨b, hb, hba⟩, rfl⟩
            · exact absurd hkey
                (hnew x (List.mem_append_right _ (by simp)))
          · rintro ⟨-, hsome⟩
            exact Or.inl (Option.some.inj hsome).symm
        · rw [List.find?_cons_of_neg (by simpa using hkey)]
          constructor
          · rintro (rfl | ⟨hnew, hfind⟩)
            · exact absurd rfl hkey
            · exact ⟨fun b hb => hnew b (List.mem_append_left _ hb),
                hfind⟩
          · rintro ⟨hnew, hfind⟩
            refine Or.inr ⟨fun b hb => ?_, hfind⟩
            rcases List.mem_append.mp hb with hb | hb
            · exact hnew b hb
            · rw [List.mem_singleton.mp hb]
              exact hkey

/-- A row that is kept is the first of its key. -/
theorem mem_firsts :
    a ∈ firsts key l ↔ l.find? (fun b => key b = key a) = some a := by
  unfold firsts
  rw [mem_foldl_keepFirst]
  simp

/-- Every key has a row that is kept. -/
theorem foldl_keepFirst_key (h : a ∈ l) :
    ∃ b ∈ l.foldl (keepFirst key) kept, key b = key a := by
  by_cases hkept : ∃ b ∈ kept, key b = key a
  · obtain ⟨b, hb, hkey⟩ := hkept
    exact ⟨b, mem_foldl_keepFirst.mpr (Or.inl hb), hkey⟩
  · have hsome : (l.find? fun c => key c = key a).isSome :=
      List.find?_isSome.mpr ⟨a, h, by simp⟩
    obtain ⟨b, hb⟩ := Option.isSome_iff_exists.mp hsome
    have hkey : key b = key a := by simpa using List.find?_some hb
    refine ⟨b, mem_foldl_keepFirst.mpr (Or.inr ⟨fun c hc hsame => ?_, ?_⟩),
      hkey⟩
    · exact hkept ⟨c, hc, hsame.trans hkey⟩
    · rw [hkey]
      exact hb

/-- A key is kept once among the rows of a kind, if it was at first. -/
theorem foldl_keepFirst_keys {p : α → Bool}
    (h : ((kept.filter p).map key).Nodup) :
    (((l.foldl (keepFirst key) kept).filter p).map key).Nodup := by
  induction l generalizing kept with
  | nil => exact h
  | cons x rest ih =>
      rw [List.foldl_cons]
      refine ih ?_
      unfold keepFirst
      split
      · exact h
      · rename_i hnew
        cases hx : p x with
        | false =>
            rw [List.filter_append, List.filter_cons_of_neg (by simp [hx]),
              List.filter_nil, List.append_nil]
            exact h
        | true =>
            rw [List.filter_append, List.filter_cons_of_pos hx,
              List.filter_nil]
            refine Relational.nodup_concat h fun b hb hkey => hnew ?_
            exact ⟨b, (List.mem_filter.mp hb).1, hkey⟩

/-- A key is kept once. -/
theorem firsts_keys_nodup : ((firsts key l).map key).Nodup := by
  have hkinds : (((firsts key l).filter fun _ => true).map key).Nodup :=
    foldl_keepFirst_keys .nil
  rwa [List.filter_true] at hkinds

theorem mem_of_mem_firsts (h : a ∈ firsts key l) : a ∈ l :=
  List.mem_of_find?_eq_some (mem_firsts.mp h)

theorem firsts_of_key (h : k ∈ keys key l) :
    ∃ a ∈ firsts key l, key a = k := by
  obtain ⟨b, hb, rfl⟩ := mem_keys.mp h
  exact foldl_keepFirst_key hb

/-- Rows that are their own keys are kept. -/
theorem mem_firsts_id {l : List κ} : k ∈ firsts id l ↔ k ∈ l := by
  rw [mem_firsts]
  constructor
  · exact List.mem_of_find?_eq_some
  · intro h
    have hsome : (l.find? fun b => id b = id k).isSome :=
      List.find?_isSome.mpr ⟨k, h, by simp⟩
    obtain ⟨b, hb⟩ := Option.isSome_iff_exists.mp hsome
    have hkey : b = k := by simpa using List.find?_some hb
    exact hkey ▸ hb

/-- What is kept of a key is its first row. -/
theorem filter_firsts : (firsts key l).filter (fun a => key a = k)
    = (l.find? fun a => key a = k).toList := by
  cases hfind : l.find? fun a => key a = k with
  | none =>
      rw [List.find?_eq_none] at hfind
      exact List.filter_eq_nil_iff.mpr fun a ha =>
        hfind a (mem_of_mem_firsts ha)
  | some a =>
      have hkey : key a = k := by simpa using List.find?_some hfind
      have ha : a ∈ (firsts key l).filter fun b => key b = k :=
        List.mem_filter.mpr
          ⟨mem_firsts.mpr (hkey ▸ hfind), by simpa using hkey⟩
      have hall : ∀ b ∈ (firsts key l).filter fun b => key b = k,
          b = a := by
        intro b hb
        obtain ⟨hmem, hb⟩ := List.mem_filter.mp hb
        have hb : key b = k := by simpa using hb
        have hsome := mem_firsts.mp hmem
        rw [hb, hfind] at hsome
        exact (Option.some.inj hsome).symm
      have hnodup : ((firsts key l).filter fun b => key b = k).Nodup :=
        (firsts_keys_nodup.of_map).filter _
      exact List.perm_singleton.mp <|
        (List.perm_ext_iff_of_nodup hnodup (List.nodup_singleton a)).mpr
          fun b => ⟨fun hb => List.mem_singleton.mpr (hall b hb),
            fun hb => List.mem_singleton.mp hb ▸ ha⟩

theorem mem_keys_perm (h : l'.Perm l) :
    k ∈ keys key l' ↔ k ∈ keys key l := by
  simp only [mem_keys, h.mem_iff]

theorem firsts_length (h : l'.Perm l) :
    (firsts key l').length = (keys key l).length := by
  have hperm : ((firsts key l').map key).Perm (keys key l) := by
    refine (List.perm_ext_iff_of_nodup firsts_keys_nodup
      keys_nodup).mpr fun k => ?_
    rw [← mem_keys_perm h, List.mem_map]
    constructor
    · rintro ⟨a, ha, rfl⟩
      exact mem_keys.mpr ⟨a, mem_of_mem_firsts ha, rfl⟩
    · exact firsts_of_key
  rw [← hperm.length_eq, List.length_map]

/-- A key of one value shows it, whichever row comes first. -/
theorem uniform_shown (hperm : l'.Perm l)
    (h : Uniform key value best l k) (hk : k ∈ keys key l) :
    ∃ a ∈ firsts key l', key a = k ∧ value a = best k := by
  obtain ⟨a, ha, hkey⟩ := firsts_of_key ((mem_keys_perm hperm).mpr hk)
  exact ⟨a, ha, hkey, h a (hperm.mem_iff.mp (mem_of_mem_firsts ha)) hkey⟩

/-- In an ascending order the first row of a key is its worst. -/
theorem find_ascending [LinearOrder β]
    (h : l.Pairwise fun a b => value a ≤ value b)
    (hfind : l.find? (fun b => key b = k) = some a) :
    ∀ b ∈ l, key b = k → value a ≤ value b := by
  obtain ⟨-, before, after, rfl, hbefore⟩ :=
    List.find?_eq_some_iff_append.mp hfind
  intro b hb hkey
  rcases List.mem_append.mp hb with hb | hb
  · have hno := hbefore b hb
    simp only [hkey, decide_true, Bool.not_true, Bool.false_eq_true] at hno
  · rcases List.mem_cons.mp hb with rfl | hb
    · exact le_refl _
    · exact (List.pairwise_cons.mp (List.pairwise_append.mp h).2.1).1 b hb

end Firsts

-- ================================================================ best rows

section Best

variable [LinearOrder β] {key : α → κ} {value : α → β} {best : κ → β}
  {l l' out out' : List α} {n : Nat} {a : α} {k : κ}

/-- The top is the first `n` of what is kept. -/
theorem topFirsts_first : First (fun a b => value b ≤ value a)
    (firsts key l) n (topFirsts key value n l) := by
  have : Std.Total fun a b : α => value b ≤ value a :=
    ⟨fun a b => le_total (value b) (value a)⟩
  have : IsTrans α fun a b => value b ≤ value a :=
    ⟨fun _ _ _ hab hbc => hbc.trans hab⟩
  exact Selection.first_take firsts_keys_nodup.of_map n

theorem topFirsts_mem (h : a ∈ topFirsts key value n l) :
    a ∈ firsts key l := topFirsts_first.mem a h

theorem topFirsts_keys_nodup :
    ((topFirsts key value n l).map key).Nodup :=
  List.Nodup.map_on (fun _ ha _ hb hkey =>
    List.inj_on_of_nodup_map firsts_keys_nodup (topFirsts_mem ha)
      (topFirsts_mem hb) hkey) topFirsts_first.nodup

theorem topFirsts_length_le :
    (topFirsts key value n l).length ≤ n := by
  rw [topFirsts_first.length]
  exact Nat.min_le_left _ _

/-- If `n` settled keys are over a key, whatever else is on top is no
worse than the key. -/
theorem over_settled (hperm : l'.Perm l)
    (ha : a ∈ topFirsts key value n l')
    (hn : n ≤ (settledOver key value best l k).length)
    (hno : key a ∉ settledOver key value best l k) :
    best k ≤ value a := by
  by_contra hlt
  have hlt := lt_of_not_ge hlt
  -- all of them would be on top, and one more
  have hall : ∀ t ∈ settledOver key value best l k,
      t ∈ (topFirsts key value n l').map key := by
    intro t ht
    obtain ⟨htk, hcond⟩ := List.mem_filter.mp ht
    obtain ⟨huniform, hover⟩ := of_decide_eq_true hcond
    obtain ⟨b, hb, hkey, hvalue⟩ := uniform_shown hperm huniform htk
    by_contra hnot
    have hout : b ∉ topFirsts key value n l' := fun hin =>
      hnot (List.mem_map.mpr ⟨b, hin, hkey⟩)
    have hle := topFirsts_first.first a ha b hb hout
    rw [hvalue] at hle
    exact absurd (hover.trans hle) (not_le_of_gt hlt)
  have hsub : (key a :: settledOver key value best l k).Subperm
      ((topFirsts key value n l').map key) := by
    refine List.subperm_of_subset
      (List.nodup_cons.mpr ⟨hno, keys_nodup.filter _⟩) fun t ht => ?_
    rcases List.mem_cons.mp ht with rfl | ht
    · exact List.mem_map_of_mem ha
    · exact hall t ht
  have hlen := hsub.length_le
  rw [List.length_cons, List.length_map] at hlen
  have hle : (topFirsts key value n l').length ≤ n := topFirsts_length_le
  omega

/-- Every order of settled rows leads to the best. -/
theorem ranks_of_settled (hbest : IsBest key value best l)
    (hperm : l'.Perm l) (hs : Settled key value best l n) :
    Ranks key value best l n (topFirsts key value n l') := by
  have hrow : ∀ a ∈ topFirsts key value n l', a ∈ l := fun a ha =>
    hperm.mem_iff.mp (mem_of_mem_firsts (topFirsts_mem ha))
  have hscored : ∀ a ∈ topFirsts key value n l', value a = best (key a) := by
    intro a ha
    by_cases huniform : Uniform key value best l (key a)
    · exact huniform a (hrow a ha) rfl
    · have hn := (hs (key a)
        (mem_keys.mpr ⟨a, hrow a ha, rfl⟩)).resolve_left huniform
      refine le_antisymm (hbest.bound a (hrow a ha))
        (over_settled hperm ha hn fun hin => huniform ?_)
      exact (of_decide_eq_true (List.mem_filter.mp hin).2).1
  refine ⟨hscored, ?_, topFirsts_keys_nodup, ?_, ?_, ?_⟩
  · intro s hin
    obtain ⟨a, ha, rfl⟩ := List.mem_map.mp hin
    exact mem_keys.mpr ⟨a, hrow a ha, rfl⟩
  · refine List.pairwise_map.mpr
      (topFirsts_first.ordered.imp_of_mem fun {a b} ha hb hle => ?_)
    rwa [hscored a ha, hscored b hb] at hle
  · rw [List.length_map, topFirsts_first.length, firsts_length hperm]
  · intro s hin t ht hout
    obtain ⟨a, ha, rfl⟩ := List.mem_map.mp hin
    rw [← hscored a ha]
    by_cases huniform : Uniform key value best l t
    · obtain ⟨b, hb, hkey, hvalue⟩ := uniform_shown hperm huniform ht
      rw [← hvalue]
      exact topFirsts_first.first a ha b hb fun hbin =>
        hout (List.mem_map.mpr ⟨b, hbin, hkey⟩)
    · have hn := (hs t ht).resolve_left huniform
      by_cases hover : key a ∈ settledOver key value best l t
      · rw [hscored a ha]
        exact (of_decide_eq_true (List.mem_filter.mp hover).2).2
      · exact over_settled hperm ha hn hover

/-- If the ascending order leads to the best, the rows are settled. -/
theorem settled_of_ranks (hbest : IsBest key value best l)
    (h : Ranks key value best l n (topFirsts key value n
      (l.insertionSort fun a b => value a ≤ value b))) :
    Settled key value best l n := by
  have hsorted : (l.insertionSort fun a b => value a ≤ value b).Pairwise
      fun a b => value a ≤ value b := by
    have : Std.Total fun a b : α => value a ≤ value b :=
      ⟨fun a b => le_total (value a) (value b)⟩
    have : IsTrans α fun a b => value a ≤ value b :=
      ⟨fun _ _ _ hab hbc => hab.trans hbc⟩
    exact List.pairwise_insertionSort _ _
  have hperm := List.perm_insertionSort
    (fun a b => value a ≤ value b) l
  -- what shows its best value by its worst row has one value
  have huniform : ∀ s ∈ (topFirsts key value n
      (l.insertionSort fun a b => value a ≤ value b)).map key,
      Uniform key value best l s := by
    intro s hs b hb hkey
    obtain ⟨a, ha, rfl⟩ := List.mem_map.mp hs
    have hworst := find_ascending hsorted
      (mem_firsts.mp (topFirsts_mem ha)) b (hperm.mem_iff.mpr hb) hkey
    rw [h.scored a ha] at hworst
    exact le_antisymm (hkey ▸ hbest.bound b hb) hworst
  intro k hk
  by_cases hk' : Uniform key value best l k
  · exact Or.inl hk'
  · right
    have hout := fun hin => hk' (huniform k hin)
    rw [← h.selected.full hk hout]
    refine (List.subperm_of_subset h.selected.nodup
      fun s hs => ?_).length_le
    exact List.mem_filter.mpr ⟨h.selected.mem s hs, decide_eq_true
      ⟨huniform s hs, h.selected.first s hs k hk hout⟩⟩

/-- All orders of the rows lead to the best exactly when they are
settled. -/
theorem topFirsts_iff (hbest : IsBest key value best l) :
    (∀ l', l'.Perm l →
      Ranks key value best l n (topFirsts key value n l'))
      ↔ Settled key value best l n :=
  ⟨fun h => settled_of_ranks hbest (h _ (List.perm_insertionSort _ l)),
    fun h _ hperm => ranks_of_settled hbest hperm h⟩

theorem Ranks.values (h : Ranks key value best l n out) :
    out.map value = (out.map key).map best := by
  rw [List.map_map]
  exact List.map_congr_left h.scored

/-- Two results show the same values. -/
theorem Ranks.values_eq (h : Ranks key value best l n out)
    (h' : Ranks key value best l n out') :
    out.map value = out'.map value := by
  rw [h.values, h'.values, h.selected.values_eq h'.selected]

/-- What one result has and another has not, another row of its value
stands for. -/
theorem Ranks.exchange (h : Ranks key value best l n out)
    (h' : Ranks key value best l n out') (ha : a ∈ out) :
    key a ∈ out'.map key
      ∨ ∃ b ∈ out', key b ∉ out.map key ∧ value b = value a := by
  by_cases hin : key a ∈ out'.map key
  · exact Or.inl hin
  · right
    have hkey := List.mem_map_of_mem (f := key) ha
    obtain ⟨s, hs, hno⟩ := h.selected.exchange h'.selected hkey hin
    obtain ⟨b, hb, rfl⟩ := List.mem_map.mp hs
    refine ⟨b, hb, hno, ?_⟩
    rw [h.scored a ha, h'.scored b hb]
    exact (h.selected.exchange_value h'.selected hkey hin hs hno).symm

end Best

end Ranking
