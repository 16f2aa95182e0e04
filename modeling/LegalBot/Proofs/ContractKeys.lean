/-
Whether a contract's key says which contract it is.

The key joins the type and the names of the parties, without order and
duplicates, with a separator that all of them may contain. It is made of
the type and the set of names, so equal contracts have equal keys; and it
says what stands between the separators, but not which of them join and
which belong to a name (`Lib/Separated.lean`). Two keys of different
contracts are equal when the same pieces are cut in different places.
-/
import LegalBot.Lib.Separated
import LegalBot.Memory.Ontology
import Mathlib.Data.List.Dedup
import Mathlib.Data.String.Basic

namespace LegalBot.Memory

open Separated

-- ============================================================== statements

/-- The type, trimmed and in lower case; without one it is `unknown`. -/
def contractTypeOf (tx : Texts) (type : Option String) : String :=
  tx.lower (strip
    (if type.getD "" = "" then "unknown" else type.getD ""))

/-- The normalised names of the parties that have one. -/
def normalizedParties (tx : Texts) (parties : List String) : List String :=
  (parties.filter fun p => strip p ≠ "").map (normalizeName tx)

/-- The names as the key has them. -/
def sortedNames (tx : Texts) (parties : List String) : List String :=
  (normalizedParties tx parties).dedup.insertionSort (· ≤ ·)

/-- One type, and one set of names. -/
def SameContract (tx : Texts) (type type' : Option String)
    (parties parties' : List String) : Prop :=
  contractTypeOf tx type = contractTypeOf tx type'
    ∧ ∀ name, name ∈ normalizedParties tx parties
      ↔ name ∈ normalizedParties tx parties'

/-- The key of a type that may be missing. -/
def contractKeyOf (tx : Texts) (type : Option String)
    (parties : List String) : String :=
  contractCanonicalKey tx (type.getD "") parties

/-- The type and the names, as characters. -/
def keyTexts (tx : Texts) (type : Option String) (parties : List String) :
    List (List Char) :=
  (contractTypeOf tx type :: sortedNames tx parties).map String.toList

/-- What stands between the separators of the type, of the names and
between them; without names, an empty text comes after the type. -/
def keyPieces (tx : Texts) (type : Option String)
    (parties : List String) : List (List Char) :=
  pieces '|' (keyTexts tx type parties
    ++ if sortedNames tx parties = [] then [[]] else [])

/-- How many separators the type has, and each name. -/
def keyCuts (tx : Texts) (type : Option String) (parties : List String) :
    List Nat :=
  cuts '|' (keyTexts tx type parties)

-- ===================================================================== law

section Law

variable {tx : Texts} {type type' : Option String}
  {parties parties' : List String}

theorem contractKeyOf_toList : (contractKeyOf tx type parties).toList
    = "contract:".toList ++ ['|'].intercalate (keyTexts tx type parties
      ++ if sortedNames tx parties = [] then [[]] else []) := by
  have hkey : contractKeyOf tx type parties
      = "contract:" ++ contractTypeOf tx type ++ "|"
        ++ "|".intercalate (sortedNames tx parties) := rfl
  have hbar : "|".toList = ['|'] := by simp
  rw [hkey]
  simp only [String.toList_append, String.toList_intercalate, hbar]
  unfold keyTexts
  cases sortedNames tx parties with
  | nil => simp
  | cons name rest => simp

/-- Keys are equal when their pieces are. -/
theorem contractKeyOf_eq_iff :
    contractKeyOf tx type parties = contractKeyOf tx type' parties'
      ↔ keyPieces tx type parties = keyPieces tx type' parties' := by
  rw [← String.toList_inj, contractKeyOf_toList, contractKeyOf_toList,
    List.append_cancel_left_eq]
  exact join_eq_iff (by simp [keyTexts]) (by simp [keyTexts])

theorem sortedNames_eq_iff :
    sortedNames tx parties = sortedNames tx parties'
      ↔ ∀ name, name ∈ normalizedParties tx parties
        ↔ name ∈ normalizedParties tx parties' := by
  unfold sortedNames
  constructor
  · intro h name
    rw [← List.mem_dedup, ← List.mem_insertionSort (· ≤ ·), h,
      List.mem_insertionSort, List.mem_dedup]
  · intro h
    have hperm : ((normalizedParties tx parties).dedup).Perm
        (normalizedParties tx parties').dedup := by
      refine (List.perm_ext_iff_of_nodup (List.nodup_dedup _)
        (List.nodup_dedup _)).mpr fun name => ?_
      rw [List.mem_dedup, List.mem_dedup, h]
    exact (((List.perm_insertionSort _ _).trans hperm).trans
      (List.perm_insertionSort _ _).symm).eq_of_sortedLE
        List.sortedLE_insertionSort List.sortedLE_insertionSort

theorem sameContract_iff : SameContract tx type type' parties parties'
    ↔ keyTexts tx type parties = keyTexts tx type' parties' := by
  unfold SameContract keyTexts
  rw [← sortedNames_eq_iff, List.map_cons, List.map_cons, List.cons.injEq,
    String.toList_inj,
    (List.map_injective_iff.mpr fun _ _ => String.toList_inj.mp).eq_iff]

theorem keyPieces_of_same
    (h : SameContract tx type type' parties parties') :
    keyPieces tx type parties = keyPieces tx type' parties' := by
  unfold keyPieces
  rw [sameContract_iff.mp h, sortedNames_eq_iff.mpr h.2]

/-- Equal pieces, cut at the same places, are those of one contract. -/
theorem same_of_cuts
    (hpieces : keyPieces tx type parties = keyPieces tx type' parties')
    (hcuts : keyCuts tx type parties = keyCuts tx type' parties') :
    SameContract tx type type' parties parties' := by
  have hlen := congrArg List.length hcuts
  simp only [keyCuts, cuts, keyTexts, List.length_map, List.length_cons,
    Nat.add_right_cancel_iff] at hlen
  have hnil : sortedNames tx parties = []
      ↔ sortedNames tx parties' = [] := by
    rw [← List.length_eq_zero_iff, hlen, List.length_eq_zero_iff]
  unfold keyPieces at hpieces
  simp only [hnil] at hpieces
  have hcuts' := congrArg (· ++ cuts '|'
    (if sortedNames tx parties' = [] then [[]] else [])) hcuts
  unfold keyCuts at hcuts'
  simp only [cuts, ← List.map_append] at hcuts'
  exact sameContract_iff.mpr (List.append_cancel_right
    (eq_of_pieces hpieces hcuts'))

/-- A key tells two contracts apart, if and only if the same pieces are
cut at the same places. -/
theorem contract_keys_iff (tx : Texts) (type type' : Option String)
    (parties parties' : List String) :
    (contractKeyOf tx type parties = contractKeyOf tx type' parties'
      ↔ SameContract tx type type' parties parties')
    ↔ (keyPieces tx type parties = keyPieces tx type' parties' →
      keyCuts tx type parties = keyCuts tx type' parties') := by
  rw [contractKeyOf_eq_iff]
  constructor
  · intro h hpieces
    unfold keyCuts
    rw [sameContract_iff.mp (h.mp hpieces)]
  · intro h
    exact ⟨fun hpieces => same_of_cuts hpieces (h hpieces),
      keyPieces_of_same⟩

end Law

/-- One party whose name has the separator, and two parties. -/
theorem separator_in_name : ¬ ∀ (tx : Texts) (type type' : Option String)
    (parties parties' : List String),
    contractKeyOf tx type parties = contractKeyOf tx type' parties'
      ↔ SameContract tx type type' parties parties' := by
  intro h
  have hkey : contractKeyOf .sample (some "nda") ["Ann|Bob"]
      = contractKeyOf .sample (some "nda") ["Ann", "Bob"] := by
    decide +kernel
  have hnames := ((h _ _ _ _ _).mp hkey).2 "ann|bob"
  have hmem : "ann|bob" ∈ normalizedParties .sample ["Ann|Bob"] := by
    decide +kernel
  have hnot : "ann|bob" ∉ normalizedParties .sample ["Ann", "Bob"] := by
    decide +kernel
  exact hnot (hnames.mp hmem)

end LegalBot.Memory
