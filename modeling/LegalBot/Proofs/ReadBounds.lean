/-
How large a content can be that `read_artifact` hands to the model.

`maybe_summarize_artifact_content` counts bytes and leaves alone what is
within the limit. What is over it is shrunk by kind: a text to its first
characters, a dictionary to the fields of a list, or to the beginning of
its serialization where it has none of them, bytes to their number.

A text is cut by characters, so it may have four times the limit, and
the beginning of a serialization, escaped once more, six times
(`texts_shrink`, `previews_shrink`). The fields of the list stay whole,
however large they are, and a value of another kind stays as it is.
-/
import LegalBot.Agents.ArtifactTools
import LegalBot.Json.Sizes

namespace LegalBot.Tools

open Json (textSize charsSize escaped entrySize dumps)

-- ============================================================== statements

/-- The size of a content, as `maybe_summarize_artifact_content` counts
it: what is no text and no bytes is serialized. -/
def contentSize : Content → Nat
  | .bytes data => data.length
  | .value (.str text) => textSize text
  | .value v => textSize (dumps v)

/-- What is within the limit is returned as it is, and what is not is
replaced, and marked, by what exceeds the limit by no more than the
overhead. -/
def Bounded (maxBytes overhead : Nat) (content : Content) : Prop :=
  (contentSize content ≤ maxBytes →
    maybeSummarizeArtifactContent maxBytes content = (content, false))
  ∧ (maxBytes < contentSize content →
    (maybeSummarizeArtifactContent maxBytes content).2 = true
    ∧ contentSize (maybeSummarizeArtifactContent maxBytes content).1
      ≤ maxBytes + overhead)

/-- The members that stay, whole. -/
def keptMembers (members : List (String × Json)) : List (String × Json) :=
  slimFields.filterMap fun field =>
    (Json.getMember members field).map fun v => (field, v)

/-- The members that say that others were left out. -/
def noticeMembers (maxBytes : Nat) : List (String × Json) :=
  [("_truncated", .bool true), ("_hint", .str (slimHint maxBytes))]

/-- When a content over the limit can be shrunk: the number of the bytes
is not too long, the first characters of the text or of the serialization
have few bytes, the fields that stay are small. -/
def Shrinks (maxBytes overhead : Nat) : Content → Prop
  | .bytes data =>
      (Nat.toDigits 10 data.length).length + 32 ≤ maxBytes + overhead
  | .value (.str text) =>
      charsSize (text.toList.take maxBytes) + 16 ≤ maxBytes + overhead
  | .value (.obj members) =>
      if keptMembers members = [] then
        charsSize (escaped ((dumps (.obj members)).toList.take maxBytes))
          + 35 ≤ maxBytes + overhead
      else
        ((keptMembers members).map entrySize).sum
          + ((noticeMembers maxBytes).map entrySize).sum
          ≤ maxBytes + overhead
  | .value _ => False

/-- A content that is small, or that can be made small. -/
def Fits (maxBytes overhead : Nat) (content : Content) : Prop :=
  contentSize content ≤ maxBytes ∨ Shrinks maxBytes overhead content

-- ========================================================== replacements

section Replacements

variable {maxBytes : Nat} {text : String} {members : List (String × Json)}

theorem textSize_binary (n : Nat) :
    textSize ("[binary truncated, " ++ toString n ++ " bytes total]")
      = (Nat.toDigits 10 n).length + 32 := by
  have hopen : textSize "[binary truncated, " = 19 := by decide
  have hclose : textSize " bytes total]" = 13 := by decide
  rw [Json.textSize_append, Json.textSize_append, hopen, hclose,
    Json.textSize_toString]
  omega

theorem textSize_cut : textSize (prefixOf maxBytes text ++ "\n… [truncated]")
    = charsSize (text.toList.take maxBytes) + 16 := by
  have hnotice : textSize "\n… [truncated]" = 16 := by decide
  rw [Json.textSize_append, hnotice, Json.textSize_eq, prefixOf,
    String.toList_ofList]

theorem textSize_preview :
    textSize (dumps (.obj [("_truncated", .bool true),
        ("preview", .str (prefixOf maxBytes text))]))
      = charsSize (escaped (text.toList.take maxBytes)) + 35 := by
  have hflag : entrySize ("_truncated", .bool true) = 20 := by decide
  have hname : charsSize (Json.quote "preview").toList = 9 := by decide
  rw [Json.textSize_obj (List.cons_ne_nil _ _), List.map_cons, List.map_cons,
    List.sum_cons, List.sum_cons, hflag]
  unfold entrySize
  rw [hname, dumps, Json.charsSize_quote, prefixOf, String.toList_ofList]
  simp only [List.map_nil, List.sum_nil]
  omega

theorem textSize_slim :
    textSize (dumps (.obj (keptMembers members ++ noticeMembers maxBytes)))
      = ((keptMembers members).map entrySize).sum
        + ((noticeMembers maxBytes).map entrySize).sum := by
  rw [Json.textSize_obj (by simp [noticeMembers]), List.map_append,
    List.sum_append]

end Replacements

-- ==================================================================== bounds

section Bounds

variable {maxBytes overhead : Nat} {content small : Content}

theorem summarize_small (h : contentSize content ≤ maxBytes) :
    maybeSummarizeArtifactContent maxBytes content = (content, false) := by
  cases content with
  | bytes data => exact if_pos h
  | value v =>
      cases v with
      | null => rfl
      | bool b => rfl
      | int n => rfl
      | float r => rfl
      | str text => exact if_pos h
      | arr xs => rfl
      | obj members => exact if_pos h

section Large

variable {data : List UInt8} {text : String}
  {members : List (String × Json)}

theorem summarize_bytes (h : maxBytes < data.length) :
    maybeSummarizeArtifactContent maxBytes (.bytes data)
      = (.value (.str ("[binary truncated, " ++ toString data.length
          ++ " bytes total]")), true) :=
  if_neg (Nat.not_le.mpr h)

theorem summarize_text (h : maxBytes < textSize text) :
    maybeSummarizeArtifactContent maxBytes (.value (.str text))
      = (.value (.str (prefixOf maxBytes text ++ "\n… [truncated]")),
        true) :=
  if_neg (Nat.not_le.mpr h)

theorem summarize_kept (h : maxBytes < textSize (dumps (.obj members)))
    (hkept : keptMembers members ≠ []) :
    maybeSummarizeArtifactContent maxBytes (.value (.obj members))
      = (.value (.obj (keptMembers members ++ noticeMembers maxBytes)),
        true) :=
  (if_neg (Nat.not_le.mpr h)).trans (if_pos hkept)

theorem summarize_preview (h : maxBytes < textSize (dumps (.obj members)))
    (hkept : keptMembers members = []) :
    maybeSummarizeArtifactContent maxBytes (.value (.obj members))
      = (.value (.obj [("_truncated", .bool true),
          ("preview", .str (prefixOf maxBytes (dumps (.obj members))))]),
        true) :=
  (if_neg (Nat.not_le.mpr h)).trans (if_neg (not_not.mpr hkept))

end Large

theorem bounded_of_small (h : contentSize content ≤ maxBytes) :
    Bounded maxBytes overhead content :=
  ⟨fun _ => summarize_small h, fun hlarge => absurd h (Nat.not_le.mpr hlarge)⟩

/-- What is replaced is bounded if its replacement is. -/
theorem bounded_replaced (hlarge : maxBytes < contentSize content)
    (hout : maybeSummarizeArtifactContent maxBytes content = (small, true)) :
    Bounded maxBytes overhead content
      ↔ contentSize small ≤ maxBytes + overhead := by
  unfold Bounded
  rw [hout]
  exact ⟨fun h => (h.2 hlarge).2,
    fun h => ⟨fun hsmall => absurd hsmall (Nat.not_le.mpr hlarge),
      fun _ => ⟨rfl, h⟩⟩⟩

theorem not_bounded_whole (hlarge : maxBytes < contentSize content)
    (hout : maybeSummarizeArtifactContent maxBytes content
      = (content, false)) :
    ¬Bounded maxBytes overhead content := by
  intro h
  have hflag := (h.2 hlarge).1
  rw [hout] at hflag
  cases hflag

theorem bounded_bytes {data : List UInt8} (hlarge : maxBytes < data.length) :
    Bounded maxBytes overhead (.bytes data)
      ↔ Shrinks maxBytes overhead (.bytes data) := by
  rw [bounded_replaced hlarge (summarize_bytes hlarge)]
  unfold contentSize Shrinks
  dsimp only
  rw [textSize_binary]

theorem bounded_text {text : String} (hlarge : maxBytes < textSize text) :
    Bounded maxBytes overhead (.value (.str text))
      ↔ Shrinks maxBytes overhead (.value (.str text)) := by
  rw [bounded_replaced hlarge (summarize_text hlarge)]
  unfold contentSize Shrinks
  dsimp only
  rw [textSize_cut]

theorem bounded_dict {members : List (String × Json)}
    (hlarge : maxBytes < textSize (dumps (.obj members))) :
    Bounded maxBytes overhead (.value (.obj members))
      ↔ Shrinks maxBytes overhead (.value (.obj members)) := by
  unfold Shrinks
  dsimp only
  by_cases hkept : keptMembers members = []
  · rw [bounded_replaced hlarge (summarize_preview hlarge hkept),
      if_pos hkept]
    unfold contentSize
    dsimp only
    rw [textSize_preview]
  · rw [bounded_replaced hlarge (summarize_kept hlarge hkept),
      if_neg hkept]
    unfold contentSize
    dsimp only
    rw [textSize_slim]

end Bounds

/-- A read is bounded, if and only if its content is small or can be made
small. -/
theorem read_bounded_iff (maxBytes overhead : Nat) (content : Content) :
    Bounded maxBytes overhead content ↔ Fits maxBytes overhead content := by
  unfold Fits
  rcases Nat.lt_or_ge maxBytes (contentSize content) with hlarge | hsmall
  · rw [or_iff_right (Nat.not_le.mpr hlarge)]
    cases content with
    | bytes data => exact bounded_bytes hlarge
    | value v =>
        cases v with
        | str text => exact bounded_text hlarge
        | obj members => exact bounded_dict hlarge
        | null => exact iff_of_false (not_bounded_whole hlarge rfl) id
        | bool b => exact iff_of_false (not_bounded_whole hlarge rfl) id
        | int n => exact iff_of_false (not_bounded_whole hlarge rfl) id
        | float r => exact iff_of_false (not_bounded_whole hlarge rfl) id
        | arr xs => exact iff_of_false (not_bounded_whole hlarge rfl) id
  · exact iff_of_true (bounded_of_small hsmall) (Or.inl hsmall)

/-- A list of one text, as long as the limit. -/
def longList (maxBytes : Nat) : Json :=
  .arr [.str (String.ofList (List.replicate maxBytes 'a'))]

theorem longList_large (maxBytes : Nat) :
    maxBytes < contentSize (.value (longList maxBytes)) := by
  have hlen := Json.length_escaped (List.replicate maxBytes 'a')
  have hsize : (escaped (List.replicate maxBytes 'a')).length ≤ _ :=
    Json.length_le_charsSize
  have hclose : charsSize [']'] = 1 := rfl
  show maxBytes < textSize (dumps (.arr [.str _]))
  rw [Json.textSize_eq, Json.toList_arr, Json.charsSize_cons,
    Json.charsSize_append, hclose, Json.dumpsItems, dumps,
    Json.charsSize_quote, String.toList_ofList]
  rw [List.length_replicate] at hlen
  omega

/-- It is not shrunk, at any limit; with the default of 4096 bytes. -/
theorem long_list_whole : ¬ ∀ maxBytes : Nat, ∃ overhead : Nat,
    ∀ content : Content, Bounded maxBytes overhead content := by
  intro h
  obtain ⟨overhead, hall⟩ := h 4096
  exact not_bounded_whole (longList_large 4096) rfl (hall _)

-- ================================================================ texts

section Texts

variable {maxBytes : Nat}

/-- A text is cut to four times the limit at most. -/
theorem texts_shrink (text : String) :
    Fits maxBytes (3 * maxBytes + 16) (.value (.str text)) := by
  have hfour : charsSize (text.toList.take maxBytes) ≤ _ :=
    Json.charsSize_le
  have htake := List.length_take_le maxBytes text.toList
  refine Or.inr ?_
  show _ + 16 ≤ _
  omega

/-- A dictionary without the fields, to six times the limit. -/
theorem previews_shrink {members : List (String × Json)}
    (h : keptMembers members = []) :
    Fits maxBytes (5 * maxBytes + 35) (.value (.obj members)) := by
  have hsix : charsSize (escaped ((dumps (.obj members)).toList.take
    maxBytes)) ≤ _ := Json.charsSize_escaped
  have htake := List.length_take_le maxBytes (dumps (.obj members)).toList
  refine Or.inr ?_
  unfold Shrinks
  dsimp only
  rw [if_pos h]
  omega

end Texts

end LegalBot.Tools
