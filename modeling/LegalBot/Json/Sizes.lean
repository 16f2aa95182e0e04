/-
How many bytes a text has in UTF-8, and a value that `json.dumps`
printed.

# Texts

A character has one to four bytes, so the first `n` characters of a text
have at least as many bytes as there are, and at most `4 * n`; printed
in a string they have at most `6 * n`, since a control character is
escaped with six.

# Dictionaries

The size of a dictionary is the sum of what its members take
(`textSize_obj`): each has its name, its value and four characters that
set it off.
-/
import Mathlib.Algebra.GroupWithZero.Nat
import LegalBot.Json.Printed

namespace LegalBot.Json

-- ===================================================================== texts

/-- `len(s.encode("utf-8"))`. -/
def textSize (s : String) : Nat :=
  (encodeUtf8 s).length

def charsSize (cs : List Char) : Nat :=
  (cs.map Char.utf8Size).sum

section Texts

variable {c : Char} {cs cs' : List Char}

theorem textSize_eq (s : String) : textSize s = charsSize s.toList := by
  unfold textSize encodeUtf8 charsSize
  rw [List.length_flatMap]
  congr 1
  exact List.map_congr_left fun c _ => String.length_utf8EncodeChar c

/-- The count that a string keeps. -/
theorem textSize_eq_utf8ByteSize (s : String) :
    textSize s = s.utf8ByteSize := by
  rw [← String.size_toByteArray, ← String.utf8Encode_toList]
  unfold textSize encodeUtf8 List.utf8Encode
  exact List.size_toByteArray.symm

theorem charsSize_cons :
    charsSize (c :: cs) = c.utf8Size + charsSize cs := by
  unfold charsSize
  rw [List.map_cons, List.sum_cons]

theorem charsSize_append :
    charsSize (cs ++ cs') = charsSize cs + charsSize cs' := by
  unfold charsSize
  rw [List.map_append, List.sum_append]

theorem textSize_append (s t : String) :
    textSize (s ++ t) = textSize s + textSize t := by
  rw [textSize_eq, textSize_eq, textSize_eq, String.toList_append,
    charsSize_append]

theorem length_le_charsSize : cs.length ≤ charsSize cs := by
  induction cs with
  | nil => exact Nat.le_refl 0
  | cons c cs ih =>
      have hpos := c.utf8Size_pos
      rw [charsSize_cons, List.length_cons]
      omega

theorem charsSize_le : charsSize cs ≤ 4 * cs.length := by
  induction cs with
  | nil => exact Nat.le_refl 0
  | cons c cs ih =>
      have hfour := c.utf8Size_le_four
      rw [charsSize_cons, List.length_cons]
      omega

theorem charsSize_escapeChar : charsSize (escapeChar c).toList ≤ 6 := by
  unfold escapeChar
  split
  · decide
  · decide
  · decide
  · decide
  · decide
  · decide
  · decide
  · by_cases hcontrol : c.toNat < 0x20
    · have hhigh : c.toNat / 16 < 2 := by omega
      have hlow : c.toNat % 16 < 16 := Nat.mod_lt _ (by decide)
      have hall : ∀ i < 2, ∀ j < 16, charsSize
          ['\\', 'u', '0', '0', hexDigit i, hexDigit j] ≤ 6 := by decide
      rw [if_pos hcontrol, String.toList_ofList]
      exact hall _ hhigh _ hlow
    · have hfour := c.utf8Size_le_four
      rw [if_neg hcontrol, String.toList_singleton]
      show c.utf8Size + 0 ≤ 6
      omega

theorem charsSize_escaped : charsSize (escaped cs) ≤ 6 * cs.length := by
  induction cs with
  | nil => exact Nat.le_refl 0
  | cons c cs ih =>
      have hsix := charsSize_escapeChar (c := c)
      have hcs : escaped (c :: cs)
          = (escapeChar c).toList ++ escaped cs := List.flatMap_cons
      rw [hcs, charsSize_append, List.length_cons]
      omega

/-- Digits have one byte each. -/
theorem textSize_toString (n : Nat) :
    textSize (toString n) = (Nat.toDigits 10 n).length := by
  have hone : ∀ c ∈ Nat.toDigits 10 n, c.utf8Size = 1 := by
    intro c hc
    have hdigit := isDigit_toDigits c hc
    simp only [Char.isDigit, Bool.and_eq_true, decide_eq_true_eq] at hdigit
    have hascii : (57 : UInt32) ≤ 127 := by decide
    exact Char.utf8Size_eq_one_iff.mpr (UInt32.le_trans hdigit.2 hascii)
  have hcs : (toString n).toList = Nat.toDigits 10 n := Nat.toList_repr
  rw [textSize_eq, hcs]
  unfold charsSize
  rw [List.map_eq_replicate_iff.mpr hone, List.sum_replicate_nat,
    Nat.mul_one]

/-- A printed string is its escaped characters and two quotes. -/
theorem charsSize_quote (s : String) :
    charsSize (quote s).toList = charsSize (escaped s.toList) + 2 := by
  have hopen : Char.utf8Size '"' = 1 := rfl
  have hclose : charsSize ['"'] = 1 := rfl
  rw [toList_quote, charsSize_cons, charsSize_append, hopen, hclose]
  omega

end Texts

-- ============================================================== dictionaries

/-- What a member takes: the quoted name, the value, the colon with its
blank, and two characters before the next member or around all. -/
def entrySize (m : String × Json) : Nat :=
  charsSize (quote m.1).toList + charsSize (dumps m.2).toList + 4

section Dictionaries

variable {ms : List (String × Json)}

theorem charsSize_memberText (k : String) (v : Json) :
    charsSize (memberText k v) + 2 = entrySize (k, v) := by
  have hsep : memberText k v
      = (quote k).toList ++ ([':', ' '] ++ (dumps v).toList) := by
    rw [toList_quote]
    simp [memberText]
  have hcolon : charsSize [':', ' '] = 2 := rfl
  rw [hsep, charsSize_append, charsSize_append, hcolon]
  show _ = charsSize (quote k).toList + charsSize (dumps v).toList + 4
  omega

theorem charsSize_dumpsMembers (m : String × Json)
    (ms : List (String × Json)) :
    charsSize (dumpsMembers (m :: ms)).toList + 2
      = ((m :: ms).map entrySize).sum := by
  induction ms generalizing m with
  | nil =>
      rw [dumpsMembers_one, charsSize_memberText]
      rfl
  | cons m' ms ih =>
      obtain ⟨k, v⟩ := m
      have hcomma : charsSize (',' :: ' ' :: (dumpsMembers (m' :: ms)).toList)
          = charsSize (dumpsMembers (m' :: ms)).toList + 2 := by
        have htwo : charsSize [',', ' '] = 2 := rfl
        rw [← htwo, Nat.add_comm, ← charsSize_append]
        rfl
      rw [dumpsMembers_cons, charsSize_append, hcomma, ih m',
        List.map_cons (a := (k, v)), List.sum_cons (a := entrySize (k, v)),
        ← charsSize_memberText]
      omega

theorem textSize_obj (hms : ms ≠ []) :
    textSize (dumps (.obj ms)) = (ms.map entrySize).sum := by
  cases ms with
  | nil => exact absurd rfl hms
  | cons m ms =>
      have hclose : charsSize ['\x7d'] = 1 := rfl
      have hopen : Char.utf8Size '\x7b' = 1 := rfl
      rw [← charsSize_dumpsMembers, textSize_eq, toList_obj, charsSize_cons,
        charsSize_append, hclose, hopen]
      omega

end Dictionaries

end LegalBot.Json
