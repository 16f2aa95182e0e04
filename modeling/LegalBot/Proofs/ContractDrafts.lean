/-
When a draft contract is written.

# The two checks

`fieldText` is empty of a name that is absent or blank, and of no other:
`str(None)` is `None` (`fieldText_empty`). Every placeholder of a
template is a required field (`placeholders_declared`), so nothing
`missing_fields` lets through makes `render_template` fail
(`render_complete`).

# The law

A draft is to be written if and only if the type is supported and every
required field is present, not null and not blank; otherwise nothing is
written, and of a supported type exactly the other fields are reported
(`DraftIfComplete`). A required field whose value is null is taken for
the text `None`, so this is so exactly when there is none.
-/
import LegalBot.Agents.ContractTools
import LegalBot.Json.Printed
import LegalBot.Proofs.StoredContent
import LegalBot.Proofs.ToolConfinement

namespace LegalBot.Tools

open Raising (run run_bind)
open Contracts

-- ==================================================================== values

/-- `str` of a value that is no string is its `repr`. -/
def PythonStr (env : ToolEnv) : Prop :=
  ∀ v, (∀ s, v ≠ .str s) → env.rt.str v = Json.reprOf env.repr v

/-- A text of spaces; the `repr` of a float is none. -/
def Blank : Json → Prop
  | .str s | .float s => strip s = ""
  | _ => False

/-- The field has a value that is not null and not blank. -/
def Given (values : List (String × Json)) (name : String) : Prop :=
  ∃ v, Json.getMember values name = some v ∧ v ≠ .null ∧ ¬Blank v

/-- The type is supported, and every required field is given. -/
def Complete (env : ToolEnv) (contractType : String)
    (values : List (String × Json)) : Prop :=
  ∃ ct, getContractType env.lower contractType = some ct
    ∧ ∀ name ∈ ct.fieldNames, Given values name

/-- No required field of the type has the value null. -/
def NoneNull (env : ToolEnv) (contractType : String)
    (values : List (String × Json)) : Prop :=
  ∀ ct, getContractType env.lower contractType = some ct →
    ∀ name ∈ ct.fieldNames, Json.getMember values name ≠ some .null

section Texts

variable {env : ToolEnv} {values : List (String × Json)} {name s : String}
  {c : Char}

theorem strip_ne_empty (hc : isSpace c = false) (h : c ∈ s.toList) :
    strip s ≠ "" := by
  intro hempty
  have hmem := mem_stripChars h hc
  unfold strip at hempty
  rw [← String.toList_ofList (l := stripChars s.toList), hempty] at hmem
  cases hmem

/-- No character of a number is a space. -/
theorem isSpace_number (h : Json.isNumberChar c = true) :
    isSpace c = false := by
  simp only [Json.isNumberChar, Bool.or_eq_true, decide_eq_true_eq] at h
  rcases h with ((((hdigit | rfl) | rfl) | rfl) | rfl) | rfl
  · have hrange : 48 ≤ c.toNat ∧ c.toNat ≤ 57 := by
      simpa [Char.isDigit, UInt32.le_iff_toNat_le] using hdigit
    unfold isSpace
    simp only [Bool.or_eq_false_iff, Bool.and_eq_false_iff,
      decide_eq_false_iff_not, beq_eq_false_iff_ne]
    omega
  all_goals decide

theorem strip_int (n : Int) : strip (toString n) ≠ "" := by
  have hnumber := (Json.numberOf_int id n)
  obtain ⟨d, r, hd, hcs⟩ := Json.numberOf_head hnumber.2
  have hmem : d ∈ (toString n).toList := by
    rcases hcs with hcs | hcs
    · rw [hcs]
      exact List.mem_cons_self
    · rw [hcs]
      exact List.mem_cons_of_mem _ List.mem_cons_self
  exact strip_ne_empty (isSpace_number (hnumber.1 d hmem)) hmem

theorem strip_reprFloat {r : String} :
    strip (Json.reprFloat r) = "" ↔ strip r = "" := by
  unfold Json.reprFloat
  by_cases hnan : r = "NaN"
  · rw [if_pos hnan, hnan]
    decide
  rw [if_neg hnan]
  by_cases hinf : r = "Infinity"
  · rw [if_pos hinf, hinf]
    decide
  rw [if_neg hinf]
  by_cases hminus : r = "-Infinity"
  · rw [if_pos hminus, hminus]
    decide
  · rw [if_neg hminus]

/-- The text of a value is blank when the value is. -/
theorem strip_strOf (henv : PythonStr env) {v : Json} :
    strip (strOf env.rt v) = "" ↔ Blank v := by
  have hother : ∀ w, (∀ s, w ≠ .str s) →
      strOf env.rt w = Json.reprOf env.repr w := by
    intro w hw
    cases w with
    | str s => exact absurd rfl (hw s)
    | _ => exact henv _ hw
  cases v with
  | str s => exact Iff.rfl
  | float r =>
      rw [hother _ (by simp), Json.reprOf, strip_reprFloat]
      exact Iff.rfl
  | null =>
      rw [hother _ (by simp), Json.reprOf]
      exact iff_of_false (by decide) id
  | bool b =>
      rw [hother _ (by simp)]
      cases b with
      | true =>
          rw [Json.reprOf]
          exact iff_of_false (by decide) id
      | false =>
          rw [Json.reprOf]
          exact iff_of_false (by decide) id
  | int n =>
      rw [hother _ (by simp), Json.reprOf]
      exact iff_of_false (strip_int n) id
  | arr xs =>
      rw [hother _ (by simp), Json.reprOf]
      exact iff_of_false (strip_ne_empty (c := '[') rfl (by simp)) id
  | obj ms =>
      rw [hother _ (by simp), Json.reprOf]
      exact iff_of_false (strip_ne_empty (c := '\x7b') rfl (by simp)) id

/-- What the checks look at is empty for what is absent or blank. -/
theorem fieldText_empty (henv : PythonStr env) :
    fieldText env.rt values name = ""
      ↔ ∀ v, Json.getMember values name = some v → Blank v := by
  unfold fieldText
  cases hget : Json.getMember values name with
  | none =>
      have hempty : strip (strOf env.rt (.str "")) = "" := by
        show strip "" = ""
        decide
      exact iff_of_true hempty (fun v hv => by cases hv)
  | some v =>
      rw [Option.getD_some, strip_strOf henv]
      exact ⟨fun h w hw => Option.some.inj hw ▸ h, fun h => h v rfl⟩

/-- Unless it is null. -/
theorem given_iff (henv : PythonStr env)
    (hnull : Json.getMember values name ≠ some .null) :
    Given values name ↔ fieldText env.rt values name ≠ "" := by
  rw [Ne, fieldText_empty henv, not_forall]
  constructor
  · rintro ⟨v, hv, _, hblank⟩
    exact ⟨v, fun h => hblank (h hv)⟩
  · rintro ⟨v, h⟩
    obtain ⟨hv, hblank⟩ := Classical.not_imp.mp h
    exact ⟨v, hv, fun heq => hnull (heq ▸ hv), hblank⟩

end Texts

-- ================================================================= the pieces

section Pieces

variable {text rest cs : List Char} {fields parts : List String}
  {name part : String}

/-- Text without a brace stands for itself. -/
theorem pieces_plain (h : '\x7b' ∉ text) :
    pieces 0 (text ++ rest) = text.map .char ++ pieces 0 rest := by
  induction text with
  | nil => rfl
  | cons c text ih =>
      rw [List.mem_cons, not_or] at h
      have hnone : matchPlaceholder (c :: (text ++ rest)) = none := by
        unfold matchPlaceholder
        split
        · rename_i heq
          injection heq with hc _
          exact absurd hc.symm h.1
        · rfl
      rw [List.cons_append, pieces, hnone, List.map_cons, List.cons_append]
      exact congrArg _ (ih h.2)

theorem pieces_skip : pieces cs.length (cs ++ rest) = pieces 0 rest := by
  induction cs with
  | nil => rfl
  | cons c cs ih => exact ih

theorem isSpace_nameChar {c : Char} (h : isNameChar c = true) :
    isSpace c = false := by
  unfold isNameChar at h
  rw [Bool.or_eq_true, decide_eq_true_eq] at h
  rcases h with hletter | rfl
  · have hrange : (48 ≤ c.toNat ∧ c.toNat ≤ 57)
        ∨ (65 ≤ c.toNat ∧ c.toNat ≤ 90) ∨ 97 ≤ c.toNat ∧ c.toNat ≤ 122 := by
      change ((decide (c.val ≥ 65 ∧ c.val ≤ 90)
        || (decide (c.val ≥ 97) && decide (c.val ≤ 122)))
        || (decide (c.val ≥ 48) && decide (c.val ≤ 57))) = true at hletter
      simp only [Bool.or_eq_true, Bool.and_eq_true, decide_eq_true_eq,
        ge_iff_le, UInt32.le_iff_toNat_le] at hletter
      rcases hletter with (hupper | hlower) | hdigit
      · exact Or.inr (Or.inl hupper)
      · exact Or.inr (Or.inr hlower)
      · exact Or.inl hdigit
    unfold isSpace
    simp only [Bool.or_eq_false_iff, Bool.and_eq_false_iff,
      decide_eq_false_iff_not, beq_eq_false_iff_ne]
    omega
  · decide

/-- The name of a placeholder. -/
def FieldName (name : String) : Prop :=
  name.toList ≠ [] ∧ ∀ c ∈ name.toList, isNameChar c = true

instance (name : String) : Decidable (FieldName name) :=
  @instDecidableAnd _ _ _
    (List.decidableBAll (fun c => isNameChar c = true) name.toList)

theorem matchPlaceholder_field (h : FieldName name) :
    matchPlaceholder ('\x7b' :: '\x7b'
        :: (name.toList ++ '\x7d' :: '\x7d' :: rest))
      = some (name, rest) := by
  obtain ⟨hne, hchars⟩ := h
  have hspace : (name.toList ++ '\x7d' :: '\x7d' :: rest).dropWhile isSpace
      = name.toList ++ '\x7d' :: '\x7d' :: rest := by
    cases hcs : name.toList with
    | nil => exact absurd hcs hne
    | cons c cs =>
        rw [hcs] at hchars
        have hc := isSpace_nameChar (hchars c List.mem_cons_self)
        exact List.dropWhile_cons_of_neg (by simp [hc])
  have htake : (name.toList ++ '\x7d' :: '\x7d' :: rest).takeWhile isNameChar
      = name.toList := by
    rw [List.takeWhile_append_of_pos hchars,
      List.takeWhile_cons_of_neg (by decide), List.append_nil]
  have hdrop : (name.toList ++ '\x7d' :: '\x7d' :: rest).dropWhile isNameChar
      = '\x7d' :: '\x7d' :: rest := by
    rw [List.dropWhile_append_of_pos hchars,
      List.dropWhile_cons_of_neg (by decide)]
  have hclose : ('\x7d' :: '\x7d' :: rest).dropWhile isSpace
      = '\x7d' :: '\x7d' :: rest := List.dropWhile_cons_of_neg (by decide)
  simp only [matchPlaceholder, hspace, htake, hdrop, hclose, if_neg hne,
    String.ofList_toList]

/-- The text of a placeholder. -/
def fieldPart (name : String) : String := "\x7b\x7b" ++ name ++ "\x7d\x7d"

theorem toList_fieldPart : (fieldPart name).toList
    = '\x7b' :: '\x7b' :: (name.toList ++ ['\x7d', '\x7d']) := by
  unfold fieldPart
  rw [String.toList_append, String.toList_append]
  rfl

theorem pieces_field (h : FieldName name) :
    pieces 0 ((fieldPart name).toList ++ rest)
      = .placeholder name :: pieces 0 rest := by
  have hcs : (fieldPart name).toList ++ rest
      = '\x7b' :: '\x7b' :: (name.toList ++ '\x7d' :: '\x7d' :: rest) := by
    rw [toList_fieldPart, List.cons_append, List.cons_append,
      List.append_assoc]
    rfl
  have hsplit : '\x7b' :: (name.toList ++ '\x7d' :: '\x7d' :: rest)
      = ('\x7b' :: (name.toList ++ ['\x7d', '\x7d'])) ++ rest := by
    rw [List.cons_append, List.append_assoc]
    rfl
  rw [hcs, pieces, matchPlaceholder_field h]
  dsimp only
  rw [hsplit, List.length_append, Nat.add_sub_cancel_right, pieces_skip]

/-- A part of a template of which the placeholders are `fields`. -/
def DeclaredPart (fields : List String) (part : String) : Prop :=
  '\x7b' ∉ part.toList ∨ ∃ name ∈ fields, part = fieldPart name

theorem plain_part {l : List Char} (h : '\x7b' ∉ l) :
    DeclaredPart fields (String.ofList l) := by
  refine Or.inl ?_
  rw [String.toList_ofList]
  exact h

/-- The placeholders of a text in declared parts. -/
theorem placeholders_join (hnames : ∀ name ∈ fields, FieldName name)
    (hparts : ∀ part ∈ parts, DeclaredPart fields part) :
    ∀ name, Piece.placeholder name ∈ pieces 0 (String.join parts).toList →
      name ∈ fields := by
  intro name hname
  rw [String.toList_join] at hname
  induction parts with
  | nil => cases hname
  | cons part parts ih =>
      have ih := ih fun p hp => hparts p (List.mem_cons_of_mem _ hp)
      rw [List.flatMap_cons] at hname
      rcases hparts part List.mem_cons_self with hplain | ⟨field, hfield, rfl⟩
      · rw [pieces_plain hplain] at hname
        rcases List.mem_append.mp hname with hname | hname
        · obtain ⟨c, _, hc⟩ := List.mem_map.mp hname
          cases hc
        · exact ih hname
      · rw [pieces_field (hnames field hfield)] at hname
        rcases List.mem_cons.mp hname with hname | hname
        · injection hname with hname
          exact hname ▸ hfield
        · exact ih hname

/-- A placeholder among the parts is one of the text. -/
theorem placeholder_join (hnames : ∀ name ∈ fields, FieldName name)
    (hparts : ∀ part ∈ parts, DeclaredPart fields part)
    (hname : name ∈ fields) (hmem : fieldPart name ∈ parts) :
    Piece.placeholder name ∈ pieces 0 (String.join parts).toList := by
  rw [String.toList_join]
  induction parts with
  | nil => cases hmem
  | cons part parts ih =>
      have ih := ih fun p hp => hparts p (List.mem_cons_of_mem _ hp)
      rw [List.flatMap_cons]
      rcases List.mem_cons.mp hmem with hpart | htail
      · rw [← hpart, pieces_field (hnames name hname)]
        exact List.mem_cons_self
      rcases hparts part List.mem_cons_self with hplain | ⟨field, hfield, rfl⟩
      · rw [pieces_plain hplain]
        exact List.mem_append_right _ (ih htail)
      · rw [pieces_field (hnames field hfield)]
        exact List.mem_cons_of_mem _ (ih htail)

theorem fieldNames_nda : ∀ name ∈ nda.fieldNames, FieldName name := by
  decide +kernel

theorem fieldNames_service :
    ∀ name ∈ serviceAgreement.fieldNames, FieldName name := by
  decide +kernel

theorem parts_nda :
    ∀ part ∈ ndaParts, DeclaredPart nda.fieldNames part := by
  unfold ndaParts
  simp only [List.forall_mem_cons]
  repeat' apply And.intro
  all_goals first
    | exact plain_part (by decide)
    | exact Or.inr (by decide +kernel)
    | exact fun _ h => absurd h List.not_mem_nil

theorem parts_service : ∀ part ∈ serviceAgreementParts,
    DeclaredPart serviceAgreement.fieldNames part := by
  unfold serviceAgreementParts
  simp only [List.forall_mem_cons]
  repeat' apply And.intro
  all_goals first
    | exact plain_part (by decide)
    | exact Or.inr (by decide +kernel)
    | exact fun _ h => absurd h List.not_mem_nil

/-- Every placeholder of a template is a required field of its type. -/
theorem placeholders_declared {ct : ContractType} (hct : ct ∈ contractTypes) :
    ∀ name, Piece.placeholder name ∈ pieces 0 ct.template.toList →
      name ∈ ct.fieldNames := by
  rcases List.mem_cons.mp hct with rfl | hct
  · exact placeholders_join fieldNames_nda parts_nda
  · rw [List.mem_singleton.mp hct]
    exact placeholders_join fieldNames_service parts_service

theorem mem_placeholders {template : String} :
    name ∈ placeholders template
      ↔ Piece.placeholder name ∈ pieces 0 template.toList := by
  unfold placeholders
  rw [List.mem_filterMap]
  constructor
  · rintro ⟨piece, hmem, hpiece⟩
    cases piece with
    | char c => cases hpiece
    | placeholder found => exact Option.some.inj hpiece ▸ hmem
  · exact fun hmem => ⟨_, hmem, rfl⟩

/-- Members of a list that leaves out what it has. -/
theorem mem_foldl_fresh {names found : List String} :
    name ∈ names.foldl (fun found name =>
        if name ∈ found then found else found ++ [name]) found
      ↔ name ∈ found ∨ name ∈ names := by
  induction names generalizing found with
  | nil => simp
  | cons next names ih =>
      have hnext : name ∈ (if next ∈ found then found else found ++ [next])
          ↔ name ∈ found ∨ name = next := by
        split
        · rename_i hin
          exact ⟨Or.inl, fun h => h.elim id fun heq => heq ▸ hin⟩
        · rw [List.mem_append, List.mem_singleton]
      rw [List.foldl_cons, ih, hnext, List.mem_cons, or_assoc]

theorem mem_templatePlaceholders {ct : ContractType} :
    name ∈ ct.templatePlaceholders
      ↔ Piece.placeholder name ∈ pieces 0 ct.template.toList := by
  unfold ContractType.templatePlaceholders
  rw [mem_foldl_fresh, mem_placeholders]
  simp

end Pieces

-- ================================================================= the checks

section Checks

variable {env : ToolEnv} {values : List (String × Json)} {name t : String}
  {ct : ContractType}

theorem mem_contractTypes {lower : String → String}
    (h : getContractType lower t = some ct) : ct ∈ contractTypes :=
  List.mem_of_find?_eq_some h

theorem mem_missingFields :
    name ∈ ct.missingFields env.rt values
      ↔ name ∈ ct.fieldNames ∧ fieldText env.rt values name = "" := by
  unfold ContractType.missingFields
  rw [List.mem_filter, decide_eq_true_eq]

theorem missingFields_nil : ct.missingFields env.rt values = []
    ↔ ∀ name ∈ ct.fieldNames, fieldText env.rt values name ≠ "" := by
  unfold ContractType.missingFields
  rw [List.filter_eq_nil_iff]
  simp only [decide_eq_true_eq]

/-- What `missing_fields` lets through is rendered. -/
theorem render_complete (hct : ct ∈ contractTypes)
    (h : ct.missingFields env.rt values = []) :
    ct.render env.rt env.repr t values
      = .ok (substituted env.rt ct.template values) := by
  have hnone : ct.templatePlaceholders.filter
      (fun name => fieldText env.rt values name = "") = [] := by
    refine List.filter_eq_nil_iff.mpr fun name hname => ?_
    rw [decide_eq_true_eq]
    exact missingFields_nil.mp h name
      (placeholders_declared hct name (mem_templatePlaceholders.mp hname))
  unfold ContractType.render
  dsimp only
  rw [hnone, if_neg (fun h => h rfl)]

end Checks

-- ================================================================== the draft

/-- A version of the draft is written and committed. -/
def WritesDraft (env : ToolEnv) (caller : Caller) (contractType : String)
    (values : List (String × Json)) (s s' : ToolState) (ct : ContractType)
    (markdown : String) (row : Artifact) : Prop :=
  getContractType env.lower contractType = some ct
    ∧ s'.effects = s.effects
      ++ [.write (draftArgs caller ct values markdown) row, .commit]
    ∧ row ∈ s'.t.db.artifacts.rows ∧ row.sessionId = caller.sessionId
    ∧ row.key = contractDraftKey

/-- The template, with the text of a value that is neither null nor blank
in place of every placeholder. -/
def FilledIn (env : ToolEnv) (ct : ContractType)
    (values : List (String × Json)) (markdown : String) : Prop :=
  markdown = substituted env.rt ct.template values
    ∧ ∀ name, Piece.placeholder name ∈ pieces 0 ct.template.toList →
      Given values name ∧ fieldText env.rt values name ≠ ""

/-- Exactly the fields that are not given are reported as missing. -/
def ReportsMissing (ct : ContractType) (values : List (String × Json))
    (result : Json) : Prop :=
  ∃ missing : List String, Json.getMember result.members "missing"
      = some (.arr (missing.map .str))
    ∧ ∀ name, name ∈ missing ↔ name ∈ ct.fieldNames ∧ ¬Given values name

/-- A draft is written if and only if the input is complete. An exception
is one of the artifact service, to which a complete draft was given. -/
def DraftIfComplete (env : ToolEnv) (caller : Caller)
    (contractType : String) (values : List (String × Json))
    (s : ToolState) : Prop :=
  match run (fillContractTemplate env caller contractType values) s with
  | (.ok result, s') =>
      ((∃ ct markdown row, WritesDraft env caller contractType values s s'
          ct markdown row) ↔ Complete env contractType values)
      ∧ (∀ ct markdown row, WritesDraft env caller contractType values s s'
          ct markdown row → FilledIn env ct values markdown)
      ∧ (¬Complete env contractType values → s' = s
        ∧ ∀ ct, getContractType env.lower contractType = some ct →
          ReportsMissing ct values result)
  | (.error error, _) =>
      Complete env contractType values ∧ ∃ e, error = .artifact e

section Drafts

variable {env : ToolEnv} {caller : Caller} {t : String}
  {values : List (String × Json)} {s : ToolState} {ct : ContractType}

theorem run_fill_unsupported (h : getContractType env.lower t = none) :
    run (fillContractTemplate env caller t values) s
      = (.ok (.obj [("status", .str "unsupported_type"),
          ("contract_type", .str t), ("supported", supportedTypes)]), s) := by
  unfold fillContractTemplate
  rw [h]
  rfl

theorem run_fill_missing (h : getContractType env.lower t = some ct)
    (hmissing : ct.missingFields env.rt values ≠ []) :
    run (fillContractTemplate env caller t values) s
      = (.ok (.obj [("status", .str "missing_fields"),
          ("contract_type", .str t),
          ("missing", .arr ((ct.missingFields env.rt values).map .str)),
          ("required_fields", ct.fieldsJson)]), s) := by
  unfold fillContractTemplate
  rw [h]
  dsimp only
  rw [if_pos hmissing]
  rfl

/-- Nothing missing: the store is given the draft. -/
theorem run_fill_written (caller : Caller) (s : ToolState)
    (h : getContractType env.lower t = some ct)
    (hmissing : ct.missingFields env.rt values = []) :
    (∃ e, run (fillContractTemplate env caller t values) s
        = (.error (.artifact e), s))
      ∨ ∃ result s' row,
        run (fillContractTemplate env caller t values) s = (.ok result, s')
        ∧ WritesDraft env caller t values s s' ct
          (substituted env.rt ct.template values) row := by
  have hrender := render_complete (t := t) (mem_contractTypes h) hmissing
  unfold fillContractTemplate
  rw [h]
  dsimp only
  rw [if_neg (fun hne => hne hmissing), hrender]
  dsimp only
  rw [run_bind, run_writeArtifact]
  cases hwrite : write env.rt env.svc s.t.db.artifacts s.blobs
      (draftArgs caller ct values (substituted env.rt ct.template values))
      caller.firstId with
  | error e => exact Or.inl ⟨e, rfl⟩
  | ok written =>
      obtain ⟨row, artifacts, blobs⟩ := written
      obtain ⟨-, -, hkey, hsid⟩ := write_holds hwrite
      obtain ⟨_, _, -, -, -, -, hrows, -⟩ := write_ok hwrite
      refine Or.inr ⟨_, _, row, rfl, h, ?_, ?_, hsid, hkey⟩
      · exact List.append_assoc _ _ _
      · show row ∈ artifacts.rows
        rw [hrows]
        exact List.mem_append_right _ (List.mem_singleton_self row)

theorem complete_found (h : getContractType env.lower t = some ct) :
    Complete env t values ↔ ∀ name ∈ ct.fieldNames, Given values name := by
  unfold Complete
  rw [h]
  constructor
  · rintro ⟨ct', hct, hgiven⟩
    injection hct with hct
    exact hct ▸ hgiven
  · exact fun hgiven => ⟨ct, rfl, hgiven⟩

/-- Without nulls the check is the one that is meant. -/
theorem complete_iff (henv : PythonStr env)
    (h : getContractType env.lower t = some ct)
    (hnull : NoneNull env t values) :
    Complete env t values ↔ ct.missingFields env.rt values = [] := by
  rw [complete_found h, missingFields_nil]
  exact forall₂_congr fun name hname => given_iff henv (hnull ct h name hname)

theorem not_writesDraft {ct' : ContractType} {markdown : String}
    {row : Artifact} :
    ¬WritesDraft env caller t values s s ct' markdown row := by
  rintro ⟨_, heffects, _⟩
  have hlength := congrArg List.length heffects
  rw [List.length_append] at hlength
  simp at hlength

theorem draftIfComplete_of_noneNull (henv : PythonStr env)
    (hnull : NoneNull env t values) :
    DraftIfComplete env caller t values s := by
  unfold DraftIfComplete
  cases h : getContractType env.lower t with
  | none =>
      have hincomplete : ¬Complete env t values := by
        rintro ⟨ct, hct, _⟩
        rw [h] at hct
        cases hct
      rw [run_fill_unsupported h]
      refine ⟨iff_of_false ?_ hincomplete, ?_, fun _ => ⟨rfl, ?_⟩⟩
      · rintro ⟨_, _, _, hwrites⟩
        exact not_writesDraft hwrites
      · exact fun _ _ _ hwrites => absurd hwrites not_writesDraft
      · intro ct hct
        cases hct
  | some ct =>
      by_cases hmissing : ct.missingFields env.rt values = []
      · have hcomplete := (complete_iff henv h hnull).mpr hmissing
        rcases run_fill_written caller s h hmissing with
          ⟨e, hrun⟩ | ⟨result, s', row, hrun, hwrites⟩
        · rw [hrun]
          exact ⟨hcomplete, e, rfl⟩
        · rw [hrun]
          refine ⟨iff_of_true ⟨ct, _, row, hwrites⟩ hcomplete, ?_,
            fun hincomplete => absurd hcomplete hincomplete⟩
          rintro ct' markdown row' ⟨hct', heffects, _⟩
          rw [h] at hct'
          injection hct' with hct'
          subst hct'
          have hwritten := List.append_cancel_left
            (hwrites.2.1.symm.trans heffects)
          injection hwritten with hwrite _
          injection hwrite with hargs _
          have hmarkdown : substituted env.rt ct.template values
              = markdown := by
            unfold draftArgs at hargs
            simpa using hargs
          refine ⟨hmarkdown.symm, fun name hname => ?_⟩
          have hfield := placeholders_declared (mem_contractTypes h) name hname
          exact ⟨(complete_found h).mp hcomplete name hfield,
            missingFields_nil.mp hmissing name hfield⟩
      · have hincomplete := mt (complete_iff henv h hnull).mp hmissing
        rw [run_fill_missing h hmissing]
        refine ⟨iff_of_false ?_ hincomplete, ?_, fun _ => ⟨rfl, ?_⟩⟩
        · rintro ⟨_, _, _, hwrites⟩
          exact not_writesDraft hwrites
        · exact fun _ _ _ hwrites => absurd hwrites not_writesDraft
        · intro ct' hct'
          injection hct' with hct'
          subst hct'
          refine ⟨_, rfl, fun name => ?_⟩
          rw [mem_missingFields]
          refine and_congr_right fun hname => ?_
          rw [given_iff henv (hnull ct h name hname), not_not]

/-- A required field with the value null is taken for one that is given. -/
theorem not_draftIfComplete (henv : PythonStr env)
    (h : getContractType env.lower t = some ct) {name : String}
    (hname : name ∈ ct.fieldNames)
    (hnull : Json.getMember values name = some .null) :
    ¬DraftIfComplete env caller t values s := by
  have hnot : ¬Given values name := by
    rintro ⟨v, hv, hne, _⟩
    rw [hnull] at hv
    exact hne (Option.some.inj hv).symm
  have hincomplete : ¬Complete env t values := fun hcomplete =>
    hnot ((complete_found h).mp hcomplete name hname)
  intro hdraft
  unfold DraftIfComplete at hdraft
  by_cases hmissing : ct.missingFields env.rt values = []
  · rcases run_fill_written caller s h hmissing with
      ⟨e, hrun⟩ | ⟨result, s', row, hrun, hwrites⟩
    · rw [hrun] at hdraft
      exact hincomplete hdraft.1
    · rw [hrun] at hdraft
      exact hincomplete (hdraft.1.mp ⟨ct, _, row, hwrites⟩)
  · rw [run_fill_missing h hmissing] at hdraft
    obtain ⟨missing, hresult, hmem⟩ := (hdraft.2.2 hincomplete).2 ct h
    have hreported : (ct.missingFields env.rt values).map Json.str
        = missing.map .str := by
      injection hresult with hresult
      injection hresult
    have hsame := List.map_injective_iff.mpr
      (fun _ _ heq => by injection heq) hreported
    have hin : name ∈ ct.missingFields env.rt values := by
      rw [hsame]
      exact (hmem name).mpr ⟨hname, hnot⟩
    have hblank := (fieldText_empty henv).mp (mem_missingFields.mp hin).2
      .null hnull
    exact hblank

end Drafts

-- =============================================================== scenarios

/-- `ToolEnv.sample` with Python's `str`. -/
def pythonEnv : ToolEnv :=
  { ToolEnv.sample with
    rt := { Runtime.sample with
      str := Json.reprOf ToolEnv.sample.repr } }

theorem pythonEnv_str : PythonStr pythonEnv := fun _ _ => rfl

/-- The fields of a non-disclosure agreement, with a date. -/
def ndaValues (date : Json) : List (String × Json) :=
  [("disclosing_party", .str "Acme Corp."),
    ("receiving_party", .str "Beta LLC"), ("effective_date", date),
    ("purpose", .str "evaluating a partnership"),
    ("term_months", .int 24), ("governing_law", .str "State of Delaware")]

def aliceState : ToolState := ⟨alone, sampleBlobs, []⟩

theorem getContractType_nda :
    getContractType pythonEnv.lower " NDA" = some nda := by
  have hlower : pythonEnv.lower (strip " NDA") = "nda" := by decide +kernel
  unfold getContractType
  rw [hlower]
  rfl

theorem dated_noneNull :
    NoneNull pythonEnv " NDA" (ndaValues (.str "January 1, 2026")) := by
  intro ct h
  rw [getContractType_nda] at h
  rw [← Option.some.inj h]
  decide +kernel

end LegalBot.Tools
