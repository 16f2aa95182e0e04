/-
Rendering is one substitution.

# Placeholders in a text

`PlaceholderText` is the language of `_PLACEHOLDER_RE`, and `Reads` how
`findall` and `sub` go through a text: a placeholder where one starts, a
character where none does. A text starts with one placeholder at most,
so it is read in one way, which is that of `pieces` (`reads_iff`).

# Values

The values stand beside the pieces of the template (`replaced`). What
they contain is never read.
-/
import LegalBot.Proofs.ContractDrafts

namespace LegalBot.Contracts

open Tools (FieldName isSpace_nameChar mem_templatePlaceholders
  pieces_skip)

-- ============================================================== statements

/-- Braces around a name, with spaces between. -/
def PlaceholderText (name : String) (text : List Char) : Prop :=
  FieldName name ∧ ∃ before after, (∀ c ∈ before, isSpace c = true)
    ∧ (∀ c ∈ after, isSpace c = true)
    ∧ text = '\x7b' :: '\x7b'
      :: (before ++ name.toList ++ after ++ ['\x7d', '\x7d'])

/-- A text, read from left to right. -/
inductive Reads : List Char → List Piece → Prop
  | nil : Reads [] []
  | char {c : Char} {rest : List Char} {ps : List Piece} :
      (∀ name text, PlaceholderText name text → ¬ text <+: c :: rest) →
      Reads rest ps → Reads (c :: rest) (.char c :: ps)
  | placeholder {name : String} {text rest : List Char}
      {ps : List Piece} :
      PlaceholderText name text → Reads rest ps →
      Reads (text ++ rest) (.placeholder name :: ps)

/-- The name is absent from the values, or its value is blank as a
text. -/
def Unfilled (rt : Runtime) (values : List (String × Json))
    (name : String) : Prop :=
  Json.getMember values name = none
    ∨ ∃ v, Json.getMember values name = some v ∧ strip (strOf rt v) = ""

/-- What stands for a piece. -/
def replaced (rt : Runtime) (values : List (String × Json)) :
    Piece → List Char
  | .char c => [c]
  | .placeholder name =>
      match Json.getMember values name with
      | some v => (strip (strOf rt v)).toList
      | none => []

-- ================================================================= reading

section Reading

variable {cs rest text : List Char} {name : String} {ps : List Piece}

theorem matchPlaceholder_text (h : PlaceholderText name text) :
    matchPlaceholder (text ++ rest) = some (name, rest) := by
  obtain ⟨⟨hne, hchars⟩, before, after, hbefore, hafter, rfl⟩ := h
  let close := '\x7d' :: '\x7d' :: rest
  have hassoc : before ++ name.toList ++ after ++ ['\x7d', '\x7d'] ++ rest
      = before ++ (name.toList ++ (after ++ close)) := by
    simp only [List.append_assoc, List.cons_append, List.nil_append, close]
  have hname : (name.toList ++ (after ++ close)).dropWhile isSpace
      = name.toList ++ (after ++ close) := by
    cases hcs : name.toList with
    | nil => exact absurd hcs hne
    | cons c cs =>
        rw [hcs] at hchars
        have hc := isSpace_nameChar (hchars c List.mem_cons_self)
        exact List.dropWhile_cons_of_neg (by simp [hc])
  -- the character after the name is a space or a brace
  have hstop : (after ++ close).takeWhile isNameChar = []
      ∧ (after ++ close).dropWhile isNameChar = after ++ close := by
    cases after with
    | nil =>
        exact ⟨List.takeWhile_cons_of_neg (by decide),
          List.dropWhile_cons_of_neg (by decide)⟩
    | cons c cs =>
        have hspace := hafter c List.mem_cons_self
        have hc : ¬ isNameChar c = true := fun hc => by
          rw [isSpace_nameChar hc] at hspace
          cases hspace
        exact ⟨List.takeWhile_cons_of_neg hc,
          List.dropWhile_cons_of_neg hc⟩
  have hclose : (after ++ close).dropWhile isSpace = close := by
    rw [List.dropWhile_append_of_pos hafter,
      List.dropWhile_cons_of_neg (by decide)]
  have htake : (name.toList ++ (after ++ close)).takeWhile isNameChar
      = name.toList := by
    rw [List.takeWhile_append_of_pos hchars, hstop.1, List.append_nil]
  have hdrop : (name.toList ++ (after ++ close)).dropWhile isNameChar
      = after ++ close := by
    rw [List.dropWhile_append_of_pos hchars, hstop.2]
  rw [List.cons_append, List.cons_append, hassoc]
  simp only [matchPlaceholder, List.dropWhile_append_of_pos hbefore, hname,
    htake, hdrop, hclose, close, if_neg hne, String.ofList_toList]

theorem text_of_matchPlaceholder
    (h : matchPlaceholder cs = some (name, rest)) :
    ∃ text, PlaceholderText name text ∧ cs = text ++ rest := by
  unfold matchPlaceholder at h
  split at h
  · rename_i cs
    dsimp only at h
    split at h
    · rename_i rest' hclose
      split at h
      · cases h
      · rename_i hne
        simp only [Option.some.injEq, Prod.mk.injEq] at h
        obtain ⟨rfl, rfl⟩ := h
        let inner := cs.dropWhile isSpace
        let tail := inner.dropWhile isNameChar
        have hcs : cs = cs.takeWhile isSpace ++ (inner.takeWhile isNameChar
            ++ (tail.takeWhile isSpace ++ tail.dropWhile isSpace)) := by
          rw [List.takeWhile_append_dropWhile,
            List.takeWhile_append_dropWhile,
            List.takeWhile_append_dropWhile]
        refine ⟨_, ⟨⟨?_, ?_⟩, cs.takeWhile isSpace,
          tail.takeWhile isSpace, ?_, ?_, rfl⟩, ?_⟩
        · rw [String.toList_ofList]
          exact hne
        · rw [String.toList_ofList]
          exact fun c hc => List.mem_takeWhile_imp hc
        · exact fun c hc => List.mem_takeWhile_imp hc
        · exact fun c hc => List.mem_takeWhile_imp hc
        · rw [String.toList_ofList]
          have hbraces : tail.dropWhile isSpace
              = '\x7d' :: '\x7d' :: rest' := hclose
          rw [hbraces] at hcs
          refine congrArg (fun l => '\x7b' :: '\x7b' :: l) (hcs.trans ?_)
          simp only [List.append_eq, List.append_assoc, List.cons_append,
            List.nil_append, inner]
    · cases h
  · cases h

theorem matchPlaceholder_none (h : matchPlaceholder cs = none) :
    ∀ name text, PlaceholderText name text → ¬ text <+: cs := by
  rintro name text htext ⟨rest, rfl⟩
  rw [matchPlaceholder_text htext] at h
  cases h

theorem pieces_text (h : PlaceholderText name text) :
    pieces 0 (text ++ rest) = .placeholder name :: pieces 0 rest := by
  have hmatch : matchPlaceholder (text ++ rest) = some (name, rest) :=
    matchPlaceholder_text h
  obtain ⟨-, before, after, -, -, htext⟩ := h
  rw [htext] at hmatch ⊢
  rw [List.cons_append] at hmatch ⊢
  rw [pieces, hmatch]
  dsimp only
  rw [List.length_append, Nat.add_sub_cancel_right, pieces_skip]

/-- The pieces are a reading. -/
theorem reads_pieces : ∀ cs : List Char, Reads cs (pieces 0 cs)
  | [] => .nil
  | c :: cs => by
      cases hmatch : matchPlaceholder (c :: cs) with
      | none =>
          rw [pieces, hmatch]
          exact .char (matchPlaceholder_none hmatch) (reads_pieces cs)
      | some found =>
          obtain ⟨name, rest⟩ := found
          obtain ⟨text, htext, hcs⟩ := text_of_matchPlaceholder hmatch
          have hshort : rest.length < (c :: cs).length := by
            obtain ⟨-, before, after, -, -, hchars⟩ := htext
            rw [hcs, List.length_append, hchars, List.length_cons]
            omega
          rw [hcs, pieces_text htext]
          exact .placeholder htext (reads_pieces rest)
  termination_by cs => cs.length
  decreasing_by
    · exact Nat.lt_succ_self _
    · exact hshort

/-- There is no other. -/
theorem reads_iff : Reads cs ps ↔ ps = pieces 0 cs := by
  constructor
  · intro h
    induction h with
    | nil => rfl
    | @char c rest ps hnone _ ih =>
        have hmatch : matchPlaceholder (c :: rest) = none := by
          cases hfound : matchPlaceholder (c :: rest) with
          | none => rfl
          | some found =>
              obtain ⟨text, htext, hcs⟩ := text_of_matchPlaceholder hfound
              exact absurd ⟨found.2, hcs.symm⟩ (hnone found.1 text htext)
        rw [pieces, hmatch, ih]
    | placeholder htext _ ih => rw [pieces_text htext, ih]
  · rintro rfl
    exact reads_pieces cs

end Reading

-- =============================================================== rendering

section Values

variable {rt : Runtime} {values : List (String × Json)} {name : String}
  {ct : ContractType}

theorem fieldText_unfilled :
    fieldText rt values name = "" ↔ Unfilled rt values name := by
  unfold fieldText Unfilled
  cases hget : Json.getMember values name with
  | none =>
      have hempty : strip (strOf rt (.str "")) = "" := by
        show strip "" = ""
        decide
      exact iff_of_true hempty (Or.inl rfl)
  | some v => simp

theorem replaced_placeholder :
    (fieldText rt values name).toList
      = replaced rt values (.placeholder name) := by
  unfold fieldText replaced
  dsimp only
  cases hget : Json.getMember values name with
  | none =>
      show (strip "").toList = []
      decide
  | some v => rfl

theorem substituted_eq {template : String} :
    (substituted rt template values).toList
      = (pieces 0 template.toList).flatMap (replaced rt values) := by
  unfold substituted
  rw [String.toList_ofList]
  refine List.flatMap_congr fun piece _ => ?_
  cases piece with
  | char c => rfl
  | placeholder name => exact replaced_placeholder

/-- A template is read in one way. Rendering it fails exactly when a
placeholder is unfilled; otherwise each stands replaced by its value,
and nothing else changes. -/
theorem render_substitutes (rt : Runtime) (repr : String → String)
    (ct : ContractType) (typeId : String) (values : List (String × Json)) :
    ∃ ps, Reads ct.template.toList ps
      ∧ (∀ ps', Reads ct.template.toList ps' → ps' = ps)
      ∧ ((∃ e, ct.render rt repr typeId values = .error e)
        ↔ ∃ name, .placeholder name ∈ ps ∧ Unfilled rt values name)
      ∧ ∀ out, ct.render rt repr typeId values = .ok out →
        out.toList = ps.flatMap (replaced rt values) := by
  have hunfilled : ct.templatePlaceholders.filter
      (fun name => fieldText rt values name = "") ≠ []
      ↔ ∃ name, .placeholder name ∈ pieces 0 ct.template.toList
        ∧ Unfilled rt values name := by
    rw [Ne, List.filter_eq_nil_iff]
    simp only [decide_eq_true_eq, fieldText_unfilled,
      mem_templatePlaceholders]
    push Not
    rfl
  refine ⟨pieces 0 ct.template.toList, reads_pieces _,
    fun _ => reads_iff.mp, ?_, ?_⟩
  · rw [← hunfilled]
    unfold ContractType.render
    dsimp only
    split
    · rename_i h
      exact iff_of_true ⟨_, rfl⟩ h
    · rename_i h
      refine iff_of_false ?_ h
      rintro ⟨e, he⟩
      cases he
  · intro out hout
    unfold ContractType.render at hout
    dsimp only at hout
    split at hout
    · cases hout
    · injection hout with hout
      rw [← hout]
      exact substituted_eq

end Values

/-- The first brace starts no placeholder, the second does. -/
example : pieces 0 "\x7b\x7b\x7b a \x7d\x7d\x7d".toList
    = [.char '\x7b', .placeholder "a", .char '\x7d'] := by
  decide +kernel

end LegalBot.Contracts
