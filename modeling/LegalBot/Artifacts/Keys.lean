/-
`artifacts/keys.py`: the keys a reader tries for the key it was given.

Writers store the key as it is. Readers strip it, keep it if it has a
slash, and otherwise try the three attachment prefixes; a stored key is
among its own candidates only when it survives both
(`mem_artifactKeyCandidates`).
-/
import Mathlib.Data.List.Basic
import Mathlib.Data.List.DropRight
import Mathlib.Tactic.Common

namespace LegalBot

/-- `str.isspace` of one character: what `str.strip()` removes. -/
def isSpace (c : Char) : Bool :=
  let n := c.toNat
  (0x09 ≤ n && n ≤ 0x0d) || (0x1c ≤ n && n ≤ 0x20) || n == 0x85
    || n == 0xa0 || n == 0x1680 || (0x2000 ≤ n && n ≤ 0x200a)
    || n == 0x2028 || n == 0x2029 || n == 0x202f || n == 0x205f
    || n == 0x3000

/-- `s.strip()` on characters. -/
def stripChars (cs : List Char) : List Char :=
  ((cs.dropWhile isSpace).reverse.dropWhile isSpace).reverse

/-- `s.strip()`. -/
def strip (s : String) : String := String.ofList (stripChars s.toList)

/-- `artifact_key_candidates`. -/
def artifactKeyCandidates (key : String) : List String :=
  let key := strip key
  if key = "" then []
  else if '/' ∈ key.toList then [key]
  else
    ["extracted_data/" ++ key, "extracted_text/" ++ key,
      "image_analysis/" ++ key]

/-- A key that the expansion leaves alone. -/
def CanonicalKey (key : String) : Prop :=
  '/' ∈ key.toList ∧ strip key = key

instance (key : String) : Decidable (CanonicalKey key) := by
  unfold CanonicalKey
  infer_instance

-- ================================================================ stripping

section Strip

variable {c : Char} {cs : List Char}

theorem mem_dropWhile (h : c ∈ cs) (hc : isSpace c = false) :
    c ∈ cs.dropWhile isSpace := by
  induction cs with
  | nil => cases h
  | cons d rest ih =>
      by_cases hd : isSpace d = true
      · rw [List.dropWhile_cons_of_pos hd]
        rcases List.mem_cons.mp h with rfl | h
        · rw [hd] at hc
          cases hc
        · exact ih h
      · rw [List.dropWhile_cons_of_neg hd]
        exact h

/-- Stripping removes spaces only. -/
theorem mem_stripChars (h : c ∈ cs) (hc : isSpace c = false) :
    c ∈ stripChars cs := by
  unfold stripChars
  rw [List.mem_reverse]
  refine mem_dropWhile ?_ hc
  rw [List.mem_reverse]
  exact mem_dropWhile h hc

theorem slash_mem_strip {s : String} (h : '/' ∈ s.toList) :
    '/' ∈ (strip s).toList := by
  unfold strip
  rw [String.toList_ofList]
  exact mem_stripChars h (by decide)

/-- Nothing is left to strip. -/
theorem stripChars_stripChars : stripChars (stripChars cs) = stripChars cs := by
  have hleft : (stripChars cs).dropWhile isSpace = stripChars cs := by
    refine List.dropWhile_eq_self_iff.mpr fun hlen => ?_
    have hfront : stripChars cs <+: cs.dropWhile isSpace :=
      List.rdropWhile_prefix isSpace _
    have hlen' := Nat.lt_of_lt_of_le hlen hfront.length_le
    rw [hfront.getElem hlen]
    exact List.dropWhile_get_zero_not _ cs hlen'
  rw [stripChars, hleft]
  exact List.rdropWhile_idempotent isSpace _

theorem strip_strip {s : String} : strip (strip s) = strip s := by
  unfold strip
  rw [String.toList_ofList, stripChars_stripChars]

end Strip

-- =============================================================== candidates

section Candidates

variable {key : String}

/-- A canonical key is its only candidate. -/
theorem artifactKeyCandidates_of_canonical (h : CanonicalKey key) :
    artifactKeyCandidates key = [key] := by
  obtain ⟨hslash, hstrip⟩ := h
  have hne : key ≠ "" := by
    rintro rfl
    cases hslash
  unfold artifactKeyCandidates
  simp only [hstrip, if_neg hne, if_pos hslash]

/-- A key is among its candidates exactly when it is canonical. -/
theorem mem_artifactKeyCandidates :
    key ∈ artifactKeyCandidates key ↔ CanonicalKey key := by
  constructor
  · intro h
    unfold artifactKeyCandidates at h
    simp only at h
    split at h
    · cases h
    · split at h
      · rename_i hslash
        have hkey := List.mem_singleton.mp h
        exact ⟨hkey ▸ hslash, hkey.symm⟩
      · -- a prefixed candidate has a slash, and stripping keeps it
        rename_i hnot
        have hslash : '/' ∈ key.toList := by
          rcases List.mem_cons.mp h with h | h
          · rw [h]
            simp
          · rcases List.mem_cons.mp h with h | h
            · rw [h]
              simp
            · rw [List.mem_singleton.mp h]
              simp
        exact absurd (slash_mem_strip hslash) hnot
  · intro h
    rw [artifactKeyCandidates_of_canonical h]
    exact List.mem_singleton_self key

end Candidates

example : artifactKeyCandidates " executed_nda.docx\n"
    = ["extracted_data/executed_nda.docx",
      "extracted_text/executed_nda.docx",
      "image_analysis/executed_nda.docx"] := by decide

end LegalBot
