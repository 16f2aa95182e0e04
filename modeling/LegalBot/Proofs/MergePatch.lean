/-
`_json_merge_patch` is RFC 7396.

# The reference

`mergePatch` is the function of RFC 7396, section 2, on a target that
may not exist: it removes the pair of a `null`, and sets every other pair
to the merge of what the target has under the name. The code tells apart
more cases: it recurses only into objects and assigns the rest as it is.

# What a merge leaves

`follow v path` follows member names only, so it stops at an array. Each fact
is one induction over the patch: what happens to one name is decided by
the pair of that name (`settled`), because a patch, being a `dict`, has
no name twice.
-/
import LegalBot.Json.Members

namespace LegalBot.Json

-- ============================================================= the reference

/-- "If Name exists in Target: remove the Name/Value pair". -/
def removePair (target : List (String × Json)) (name : String) :
    List (String × Json) :=
  if (getMember target name).isSome then popMember target name else target

/-- "If Target is not an Object: Target = {}". -/
def objectPairs : Option Json → List (String × Json)
  | some (.obj pairs) => pairs
  | _ => []

mutual

/-- `MergePatch(Target, Patch)`. -/
def mergePatch (target : Option Json) : Json → Json
  | .obj patch => .obj (mergePairs (objectPairs target) patch)
  | patch => patch

/-- "For each Name/Value pair in Patch". -/
def mergePairs (target : List (String × Json)) :
    List (String × Json) → List (String × Json)
  | [] => target
  | (name, value) :: rest =>
      if value = .null then mergePairs (removePair target name) rest
      else
        mergePairs (setMember target name
          (mergePatch (getMember target name) value)) rest

end

/-- The value a path of member names leads to. -/
def follow : Json → List String → Option Json
  | v, [] => some v
  | .obj ms, k :: path => (getMember ms k).bind fun v => follow v path
  | _, _ :: _ => none

/-- A member on the path is `null`. -/
def NullMember (v : Json) (path : List String) : Prop :=
  path ≠ [] ∧ v.follow path = some .null

-- ========================================================= the two functions

section Reference

variable {target : Option Json} {out : List (String × Json)}

theorem removePair_eq {name : String} :
    removePair out name = popMember out name := by
  unfold removePair
  cases h : getMember out name with
  | none => exact (popMember_self h).symm
  | some v => rfl

theorem objectPairs_eq : objectPairs target = (target.getD .null).members := by
  cases target with
  | none => rfl
  | some v => cases v <;> rfl

/-- A value that is no object is assigned as it is. -/
theorem mergePatch_scalar {v : Json} (h : ∀ ms, v ≠ .obj ms) :
    mergePatch target v = v := by
  cases v with
  | obj ms => exact absurd rfl (h ms)
  | _ => rw [mergePatch]; exact h

mutual

theorem jsonMergePatch_eq (target : Option Json) : ∀ patch,
    jsonMergePatch (target.getD .null) patch = mergePatch target patch
  | .obj patch => by
      rw [jsonMergePatch, mergePatch, objectPairs_eq, mergeMembers_eq]
  | .null | .bool _ | .int _ | .float _ | .str _ | .arr _ => by
      simp [jsonMergePatch, mergePatch]

theorem mergeMembers_eq (out : List (String × Json)) : ∀ patch,
    mergeMembers out patch = mergePairs out patch
  | [] => by rw [mergeMembers, mergePairs]
  | (k, .null) :: rest => by
      rw [mergeMembers, mergePairs, if_pos rfl, removePair_eq,
        mergeMembers_eq _ rest]
  | (k, .obj ms) :: rest => by
      rw [mergeMembers, mergePairs, if_neg (by simp),
        jsonMergePatch_eq _ (.obj ms), mergeMembers_eq _ rest]
  | (k, .bool _) :: rest | (k, .int _) :: rest | (k, .float _) :: rest
  | (k, .str _) :: rest | (k, .arr _) :: rest => by
      simp [mergeMembers, mergePairs, mergePatch, mergeMembers_eq _ rest]

end

end Reference

-- ============================================================ the merged value

section Merged

variable {out rest ms : List (String × Json)} {k : String} {v : Json}
  {path : List String}

theorem mergeMembers_null :
    mergeMembers out ((k, .null) :: rest)
      = mergeMembers (popMember out k) rest := by rw [mergeMembers]

/-- A pair that deletes nothing assigns. -/
theorem mergeMembers_cons (hv : v ≠ .null) :
    mergeMembers out ((k, v) :: rest)
      = mergeMembers (setMember out k
          (jsonMergePatch ((getMember out k).getD .null) v)) rest := by
  cases v with
  | null => exact absurd rfl hv
  | obj ms => rw [mergeMembers]
  | _ => rw [mergeMembers, jsonMergePatch] <;> simp

/-- Only `null` makes a merge `null`. -/
theorem jsonMergePatch_ne_null {target : Json} (hv : v ≠ .null) :
    jsonMergePatch target v ≠ .null := by
  cases v with
  | null => exact absurd rfl hv
  | _ => simp [jsonMergePatch]

/-- The members that the patch does not name, in their order. -/
theorem mergeMembers_unnamed {q : String → Bool} :
    ∀ {out : List (String × Json)} {patch : List (String × Json)},
      (∀ m ∈ patch, q m.1 = false) →
      (mergeMembers out patch).filter (fun m => q m.1)
        = out.filter fun m => q m.1
  | out, [], _ => by rw [mergeMembers]
  | out, (k, v) :: rest, h => by
      have hk : q k = false := h (k, v) List.mem_cons_self
      have hrest : ∀ m ∈ rest, q m.1 = false := fun m hm =>
        h m (List.mem_cons_of_mem _ hm)
      by_cases hv : v = .null
      · rw [hv, mergeMembers_null, mergeMembers_unnamed hrest,
          filter_popMember hk]
      · rw [mergeMembers_cons hv, mergeMembers_unnamed hrest,
          filter_setMember hk]

/-- A name that the patch lacks is looked up in the target. -/
theorem getMember_mergeMembers_other (h : k ∉ rest.map Prod.fst) :
    getMember (mergeMembers out rest) k = getMember out k := by
  induction rest generalizing out with
  | nil => rw [mergeMembers]
  | cons m rest ih =>
      obtain ⟨name, v⟩ := m
      rw [List.map_cons, List.mem_cons, not_or] at h
      by_cases hv : v = .null
      · rw [hv, mergeMembers_null, ih h.2, getMember_popMember,
          if_neg (Ne.symm h.1)]
      · rw [mergeMembers_cons hv, ih h.2, getMember_setMember,
          if_neg (Ne.symm h.1)]

theorem follow_cons {v : Json} :
    v.follow (k :: path)
      = (getMember v.members k).bind fun w => w.follow path := by
  cases v <;> rfl

mutual

/-- Below the root a merge has no `null` that its target has not. -/
theorem follow_jsonMergePatch {k : String} {path : List String} :
    ∀ (target patch : Json),
      (jsonMergePatch target patch).follow (k :: path) = some .null →
      target.follow (k :: path) = some .null
  | target, .obj patch, h => by
      rw [jsonMergePatch, follow_cons] at h
      rw [follow_cons]
      exact follow_mergeMembers target.members patch h
  | _, .null, h | _, .bool _, h | _, .int _, h | _, .float _, h
  | _, .str _, h | _, .arr _, h => by
      simp [jsonMergePatch, follow_cons, members, getMember_nil] at h

/-- The same of the members. -/
theorem follow_mergeMembers {k : String} {path : List String} :
    ∀ (out patch : List (String × Json)),
      ((getMember (mergeMembers out patch) k).bind fun w => w.follow path)
        = some .null →
      ((getMember out k).bind fun w => w.follow path) = some .null
  | out, [], h => by rwa [mergeMembers] at h
  | out, (name, v) :: rest, h => by
      by_cases hv : v = .null
      · rw [hv, mergeMembers_null] at h
        have h := follow_mergeMembers _ rest h
        rw [getMember_popMember] at h
        split at h
        · cases h
        · exact h
      rw [mergeMembers_cons hv] at h
      have h := follow_mergeMembers _ rest h
      rw [getMember_setMember] at h
      by_cases hname : name = k
      · subst hname
        rw [if_pos rfl, Option.bind_some] at h
        cases path with
        | nil =>
            rw [follow] at h
            exact absurd (Option.some.inj h) (jsonMergePatch_ne_null hv)
        | cons k' path =>
            have h := follow_jsonMergePatch _ v h
            cases hget : getMember out name with
            | none =>
                rw [hget, Option.getD_none, follow_cons] at h
                cases h
            | some w =>
                rw [hget] at h
                exact h
      · rwa [if_neg hname] at h

end

-- ================================================================== twice

/-- Merging the pair again would change nothing. -/
def Settled (out : List (String × Json)) (m : String × Json) : Prop :=
  if m.2 = .null then getMember out m.1 = none
  else ∃ w, getMember out m.1 = some w ∧ jsonMergePatch w m.2 = w

theorem mergeMembers_settled (h : ∀ m ∈ rest, Settled out m) :
    mergeMembers out rest = out := by
  induction rest with
  | nil => rw [mergeMembers]
  | cons m rest ih =>
      obtain ⟨name, v⟩ := m
      have hrest := ih fun m hm => h m (List.mem_cons_of_mem _ hm)
      have hpair := h (name, v) List.mem_cons_self
      unfold Settled at hpair
      by_cases hv : v = .null
      · rw [if_pos hv] at hpair
        rw [hv, mergeMembers_null, popMember_self hpair, hrest]
      · rw [if_neg hv] at hpair
        obtain ⟨w, hget, hw⟩ := hpair
        have hset : setMember out name w = out := setMember_self hget
        rw [mergeMembers_cons hv, hget, Option.getD_some, hw, hset, hrest]

mutual

theorem jsonMergePatch_twice (target : Json) : ∀ patch : Json,
    patch.UniqueKeys →
    jsonMergePatch (jsonMergePatch target patch) patch
      = jsonMergePatch target patch
  | .obj patch, h => by
      rw [UniqueKeys] at h
      rw [jsonMergePatch, jsonMergePatch, members,
        mergeMembers_settled (merged_settled _ patch h.1 h.2)]
  | .null, _ | .bool _, _ | .int _, _ | .float _, _ | .str _, _
  | .arr _, _ => by simp [jsonMergePatch]

/-- Every pair is settled once the patch is merged: no later pair has its
name. -/
theorem merged_settled (out : List (String × Json)) :
    ∀ patch : List (String × Json),
      (patch.map Prod.fst).Nodup → UniqueMembers patch →
      ∀ m ∈ patch, Settled (mergeMembers out patch) m
  | [], _, _, m, hm => by cases hm
  | (name, v) :: rest, hnodup, huniq, m, hm => by
      obtain ⟨hnew, hnodup⟩ := List.nodup_cons.mp hnodup
      rw [UniqueMembers] at huniq
      by_cases hv : v = .null
      · rw [hv, mergeMembers_null]
        rcases List.mem_cons.mp hm with rfl | hm
        · unfold Settled
          rw [if_pos hv, getMember_mergeMembers_other hnew,
            getMember_popMember, if_pos rfl]
        · exact merged_settled _ rest hnodup huniq.2 m hm
      · rw [mergeMembers_cons hv]
        rcases List.mem_cons.mp hm with rfl | hm
        · unfold Settled
          rw [if_neg hv, getMember_mergeMembers_other hnew,
            getMember_setMember, if_pos rfl]
          exact ⟨_, rfl, jsonMergePatch_twice _ v huniq.1⟩
        · exact merged_settled _ rest hnodup huniq.2 m hm

end

end Merged

-- ================================================================== the law

/-- `_json_merge_patch` is the merge of RFC 7396. It keeps the members of
the target that an object patch does not name, adds no `null` member, and
changes nothing when it is made again. -/
theorem json_merge_patch_rfc7396 (target patch : Json)
    (hpatch : patch.UniqueKeys) :
    jsonMergePatch target patch = mergePatch (some target) patch
    ∧ (∀ pairs, patch = .obj pairs →
        (jsonMergePatch target patch).members.filter
            (fun m => m.1 ∉ pairs.map Prod.fst)
          = target.members.filter fun m => m.1 ∉ pairs.map Prod.fst)
    ∧ (∀ path, (jsonMergePatch target patch).NullMember path →
        target.NullMember path)
    ∧ jsonMergePatch (jsonMergePatch target patch) patch
        = jsonMergePatch target patch := by
  refine ⟨jsonMergePatch_eq (some target) patch, ?_, ?_,
    jsonMergePatch_twice target patch hpatch⟩
  · rintro pairs rfl
    rw [jsonMergePatch, members]
    refine mergeMembers_unnamed
      (q := fun k => k ∉ pairs.map Prod.fst) fun m hm => ?_
    exact decide_eq_false fun h => h (List.mem_map_of_mem hm)
  · rintro (_ | ⟨k, path⟩) ⟨hne, hnull⟩
    · exact absurd rfl hne
    · exact ⟨hne, follow_jsonMergePatch target patch hnull⟩

/-- A `null` below a name that the target has as a text. -/
theorem nested_null_merged :
    jsonMergePatch (.obj [("a", .str "x"), ("b", .null)])
        (.obj [("a", .obj [("c", .null), ("d", .int 1)])])
      = .obj [("a", .obj [("d", .int 1)]), ("b", .null)]
    ∧ jsonMergePatch
          (.obj [("a", .obj [("d", .int 1)]), ("b", .null)])
          (.obj [("a", .obj [("c", .null), ("d", .int 1)])])
        = .obj [("a", .obj [("d", .int 1)]), ("b", .null)] := by
  have h := (json_merge_patch_rfc7396
    (.obj [("a", .str "x"), ("b", .null)])
    (.obj [("a", .obj [("c", .null), ("d", .int 1)])]) (by decide)).2.2.2
  have hmerged : jsonMergePatch (.obj [("a", .str "x"), ("b", .null)])
      (.obj [("a", .obj [("c", .null), ("d", .int 1)])])
      = .obj [("a", .obj [("d", .int 1)]), ("b", .null)] := by decide
  rw [hmerged] at h
  exact ⟨hmerged, h⟩

end LegalBot.Json
