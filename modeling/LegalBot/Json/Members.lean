/-
Dictionaries as member lists: what an assignment and a deletion leave,
and values no dictionary of which has a key twice.

# The operations

`d[k] = v` and `d.pop(k, None)` are `setMember` and `popMember`. Both
leave the other keys alone (`getMember_setMember`, `getMember_popMember`,
`filter_setMember`, `filter_popMember`), and neither does anything where
its result is there already (`setMember_self`, `popMember_self`).

# Unique keys

A Python `dict` has each key once, and so has every `dict` in it:
`UniqueKeys`. Assigned one after the other, the members of such a
dictionary give the dictionary again (`assignAll_unique`).
-/
import LegalBot.Json

namespace LegalBot.Json

-- ============================================================ the operations

section Operations

variable {d ms : List (String × Json)} {k k' : String} {v : Json}

theorem getMember_nil : getMember [] k = none := rfl

theorem getMember_cons {m : String × Json} :
    getMember (m :: d) k = if m.1 = k then some m.2 else getMember d k := by
  unfold getMember
  by_cases h : m.1 = k
  · simp [h]
  · simp [h]

theorem getMember_eq_none : getMember d k = none ↔ k ∉ d.map Prod.fst := by
  induction d with
  | nil => simp [getMember_nil]
  | cons m rest ih =>
      rw [getMember_cons, List.map_cons, List.mem_cons]
      by_cases h : m.1 = k
      · simp [h]
      · simp [h, ih, Ne.symm h]

theorem getMember_mem (h : getMember d k = some v) : (k, v) ∈ d := by
  unfold getMember at h
  obtain ⟨m, hfind, hv⟩ := Option.map_eq_some_iff.mp h
  have hk := List.find?_some hfind
  have hm : m = (k, v) := Prod.ext (of_decide_eq_true hk) hv
  exact hm ▸ List.mem_of_find?_eq_some hfind

theorem getMember_of_mem (hd : (d.map Prod.fst).Nodup) (h : (k, v) ∈ d) :
    getMember d k = some v := by
  induction d with
  | nil => cases h
  | cons m rest ih =>
      obtain ⟨hnew, hrest⟩ := List.nodup_cons.mp hd
      rw [getMember_cons]
      rcases List.mem_cons.mp h with rfl | h
      · exact if_pos rfl
      · have hne : m.1 ≠ k := fun e =>
          hnew (e ▸ List.mem_map_of_mem (f := Prod.fst) h)
        rw [if_neg hne]
        exact ih hrest h

/-- What a lookup sees after a deletion. -/
theorem getMember_popMember :
    getMember (popMember d k) k'
      = if k = k' then none else getMember d k' := by
  induction d with
  | nil => simp [popMember, getMember_nil]
  | cons m rest ih =>
      unfold popMember at ih ⊢
      by_cases hm : m.1 = k
      · rw [List.filter_cons_of_neg (by simp [hm]), ih, getMember_cons]
        by_cases hk : k = k'
        · rw [if_pos hk, if_pos hk]
        · rw [if_neg hk, if_neg hk, if_neg (hm ▸ hk)]
      · rw [List.filter_cons_of_pos (by simp [hm]), getMember_cons,
          getMember_cons, ih]
        by_cases hk : k = k'
        · rw [if_pos hk, if_neg (hk ▸ hm), if_pos hk]
        · rw [if_neg hk, if_neg hk]

/-- Assigning what is there. -/
theorem setMember_self (h : getMember d k = some v) :
    setMember d k v = d := by
  induction d with
  | nil => cases h
  | cons m rest ih =>
      unfold setMember
      rw [getMember_cons] at h
      by_cases hm : m.1 = k
      · rw [if_pos hm] at h ⊢
        injection h with h
        rw [← hm, ← h]
      · rw [if_neg hm] at h ⊢
        rw [ih h]

/-- Deleting what is not there. -/
theorem popMember_self (h : getMember d k = none) : popMember d k = d := by
  refine List.filter_eq_self.mpr fun m hm => ?_
  have hne : m.1 ≠ k := fun e =>
    getMember_eq_none.mp h (e ▸ List.mem_map_of_mem hm)
  simpa using hne

/-- An assignment leaves the members of other keys, in their order. -/
theorem filter_setMember {q : String → Bool} (hk : q k = false) :
    (setMember d k v).filter (fun m => q m.1)
      = d.filter fun m => q m.1 := by
  induction d with
  | nil => simp [setMember, hk]
  | cons m rest ih =>
      unfold setMember
      by_cases hm : m.1 = k
      · rw [if_pos hm, List.filter_cons_of_neg (by simp [hk]),
          List.filter_cons_of_neg (by simp [hm, hk])]
      · rw [if_neg hm, List.filter_cons, List.filter_cons, ih]

/-- So does a deletion. -/
theorem filter_popMember {q : String → Bool} (hk : q k = false) :
    (popMember d k).filter (fun m => q m.1)
      = d.filter fun m => q m.1 := by
  unfold popMember
  rw [List.filter_filter]
  refine List.filter_congr fun m _ => ?_
  by_cases hm : m.1 = k
  · simp [hm, hk]
  · simp [hm]

theorem setMember_append (h : k ∉ d.map Prod.fst) :
    setMember d k v = d ++ [(k, v)] := by
  induction d with
  | nil => rfl
  | cons m rest ih =>
      rw [List.map_cons, List.mem_cons, not_or] at h
      unfold setMember
      rw [if_neg (Ne.symm h.1), ih h.2, List.cons_append]

/-- `dict(pairs)`. -/
def assignAll (d : List (String × Json)) :
    List (String × Json) → List (String × Json)
  | [] => d
  | (k, v) :: rest => assignAll (setMember d k v) rest

/-- Pairs of new keys are appended as they are. -/
theorem assignAll_new (h : ((d ++ ms).map Prod.fst).Nodup) :
    assignAll d ms = d ++ ms := by
  induction ms generalizing d with
  | nil => exact (List.append_nil d).symm
  | cons m rest ih =>
      obtain ⟨k, v⟩ := m
      have hk : k ∉ d.map Prod.fst := by
        rw [List.map_append, List.map_cons] at h
        exact fun hmem => (List.nodup_append.mp h).2.2 k hmem k
          List.mem_cons_self rfl
      rw [assignAll, setMember_append hk, ih (by simpa using h),
        List.append_assoc, List.singleton_append]

theorem assignAll_unique (h : (ms.map Prod.fst).Nodup) :
    assignAll [] ms = ms := assignAll_new (d := []) h

theorem assignAll_append {ms' : List (String × Json)} :
    assignAll d (ms ++ ms') = assignAll (assignAll d ms) ms' := by
  induction ms generalizing d with
  | nil => rfl
  | cons m rest ih => exact ih

/-- Other keys keep their value. -/
theorem getMember_assignAll_other (h : k ∉ ms.map Prod.fst) :
    getMember (assignAll d ms) k = getMember d k := by
  induction ms generalizing d with
  | nil => rfl
  | cons m rest ih =>
      rw [List.map_cons, List.mem_cons, not_or] at h
      unfold assignAll
      rw [ih h.2, getMember_setMember, if_neg (Ne.symm h.1)]

/-- A key has the value that was assigned to it, or keeps its own. -/
theorem getMember_assignAll (h : (ms.map Prod.fst).Nodup) :
    getMember (assignAll d ms) k = (getMember ms k).or (getMember d k) := by
  induction ms generalizing d with
  | nil => rfl
  | cons m rest ih =>
      obtain ⟨hnew, hrest⟩ := List.nodup_cons.mp h
      unfold assignAll
      rw [ih hrest, getMember_setMember, getMember_cons]
      by_cases hk : m.1 = k
      · rw [if_pos hk, if_pos hk, getMember_eq_none.mpr (hk ▸ hnew)]
        rfl
      · rw [if_neg hk, if_neg hk]

end Operations

-- =============================================================== unique keys

mutual

/-- No dictionary in the value has a key twice. -/
def UniqueKeys : Json → Prop
  | .arr xs => UniqueItems xs
  | .obj ms => (ms.map Prod.fst).Nodup ∧ UniqueMembers ms
  | _ => True

/-- `UniqueKeys` of the items. -/
def UniqueItems : List Json → Prop
  | [] => True
  | x :: rest => UniqueKeys x ∧ UniqueItems rest

/-- `UniqueKeys` of the values. -/
def UniqueMembers : List (String × Json) → Prop
  | [] => True
  | (_, v) :: rest => UniqueKeys v ∧ UniqueMembers rest

end

mutual

/-- `UniqueKeys` is decided value by value. -/
def decUniqueKeys : (v : Json) → Decidable (UniqueKeys v)
  | .arr xs => decUniqueItems xs
  | .obj ms => @instDecidableAnd _ _ inferInstance (decUniqueMembers ms)
  | .null | .bool _ | .int _ | .float _ | .str _ => isTrue trivial

/-- `UniqueItems` is decided item by item. -/
def decUniqueItems : (xs : List Json) → Decidable (UniqueItems xs)
  | [] => isTrue trivial
  | x :: rest =>
      @instDecidableAnd _ _ (decUniqueKeys x) (decUniqueItems rest)

/-- `UniqueMembers` is decided member by member. -/
def decUniqueMembers :
    (ms : List (String × Json)) → Decidable (UniqueMembers ms)
  | [] => isTrue trivial
  | (_, v) :: rest =>
      @instDecidableAnd _ _ (decUniqueKeys v) (decUniqueMembers rest)

end

instance (v : Json) : Decidable (UniqueKeys v) := decUniqueKeys v

end LegalBot.Json
