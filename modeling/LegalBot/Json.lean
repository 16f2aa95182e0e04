/-
JSON values as the Python side holds them (`None`, `bool`, `int`,
`float`, `str`, `list`, `dict`), with the dictionary operations the
services use, `json.dumps(…, ensure_ascii=False)`, and the RFC 7396
merge of `ArtifactService.update`.

# Representation

A dict is its member list in insertion order; `setMember` keeps the
position of a key it overwrites and `popMember` removes it, as CPython
dicts do. An integer is an `Int`; a float is kept by its `repr`, which
is what `json.dumps` prints and what determines the value.

# `jsonMergePatch`

A transcription of `_json_merge_patch`: a patch that is no object
replaces; an object patch starts from the target's members (or none when
the target is no object) and folds its own members over them, `null`
deleting, an object recursing into the member of that name, anything
else overwriting.
-/
import Mathlib.Tactic.Common

namespace LegalBot

/-- A JSON value. -/
inductive Json where
  | null
  | bool (b : Bool)
  | int (n : Int)
  | float (repr : String)
  | str (s : String)
  | arr (xs : List Json)
  | obj (members : List (String × Json))
  deriving Repr, Inhabited

namespace Json

-- =============================================================== equality

mutual

/-- Equality of JSON values is decidable, member by member. -/
def decEq : (a b : Json) → Decidable (a = b)
  | .null, .null => isTrue rfl
  | .bool a, .bool b => decidable_of_iff (a = b) (by simp)
  | .int a, .int b => decidable_of_iff (a = b) (by simp)
  | .float a, .float b => decidable_of_iff (a = b) (by simp)
  | .str a, .str b => decidable_of_iff (a = b) (by simp)
  | .arr a, .arr b =>
      @decidable_of_iff _ (a = b) (by simp) (decEqItems a b)
  | .obj a, .obj b =>
      @decidable_of_iff _ (a = b) (by simp) (decEqMembers a b)
  | .null, .bool _ | .null, .int _ | .null, .float _ | .null, .str _
  | .null, .arr _ | .null, .obj _
  | .bool _, .null | .bool _, .int _ | .bool _, .float _ | .bool _, .str _
  | .bool _, .arr _ | .bool _, .obj _
  | .int _, .null | .int _, .bool _ | .int _, .float _ | .int _, .str _
  | .int _, .arr _ | .int _, .obj _
  | .float _, .null | .float _, .bool _ | .float _, .int _
  | .float _, .str _ | .float _, .arr _ | .float _, .obj _
  | .str _, .null | .str _, .bool _ | .str _, .int _ | .str _, .float _
  | .str _, .arr _ | .str _, .obj _
  | .arr _, .null | .arr _, .bool _ | .arr _, .int _ | .arr _, .float _
  | .arr _, .str _ | .arr _, .obj _
  | .obj _, .null | .obj _, .bool _ | .obj _, .int _ | .obj _, .float _
  | .obj _, .str _ | .obj _, .arr _ => isFalse (by simp)

/-- Equality of arrays, item by item. -/
def decEqItems : (a b : List Json) → Decidable (a = b)
  | [], [] => isTrue rfl
  | [], _ :: _ => isFalse (by simp)
  | _ :: _, [] => isFalse (by simp)
  | a :: as, b :: bs =>
      @decidable_of_iff _ (a = b ∧ as = bs) (by simp)
        (@instDecidableAnd _ _ (decEq a b) (decEqItems as bs))

/-- Equality of member lists, pair by pair. -/
def decEqMembers : (a b : List (String × Json)) → Decidable (a = b)
  | [], [] => isTrue rfl
  | [], _ :: _ => isFalse (by simp)
  | _ :: _, [] => isFalse (by simp)
  | (k, a) :: as, (l, b) :: bs =>
      @decidable_of_iff _ (k = l ∧ a = b ∧ as = bs)
        (by simp [and_assoc])
        (@instDecidableAnd _ _ _
          (@instDecidableAnd _ _ (decEq a b) (decEqMembers as bs)))

end

instance : DecidableEq Json := decEq

-- ==================================================== dictionary members

/-- `dict.get(k)` on a member list. -/
def getMember (members : List (String × Json)) (k : String) :
    Option Json :=
  (members.find? fun m => m.1 = k).map Prod.snd

/-- `d[k] = v`: overwrite in place, or append a new key. -/
def setMember : List (String × Json) → String → Json →
    List (String × Json)
  | [], k, v => [(k, v)]
  | m :: rest, k, v =>
      if m.1 = k then (k, v) :: rest else m :: setMember rest k v

/-- What a lookup sees after an assignment. -/
theorem getMember_setMember (d : List (String × Json)) (k k' : String)
    (v : Json) :
    getMember (setMember d k v) k'
      = if k = k' then some v else getMember d k' := by
  induction d with
  | nil =>
      by_cases hk : k = k'
      · simp [setMember, getMember, hk]
      · simp [setMember, getMember, hk]
  | cons m rest ih =>
      unfold setMember
      by_cases hm : m.1 = k
      · rw [if_pos hm]
        by_cases hk : k = k'
        · simp [getMember, hk]
        · have hne : m.1 ≠ k' := fun e => hk (hm.symm.trans e)
          simp [getMember, hk, hne]
      · rw [if_neg hm]
        unfold getMember at ih ⊢
        by_cases hmk : m.1 = k'
        · have hne : k ≠ k' := fun e => hm (hmk.trans e.symm)
          simp [hmk, hne]
        · simp only [List.find?_cons, hmk, decide_false]
          exact ih

/-- `d.pop(k, None)`. -/
def popMember (members : List (String × Json)) (k : String) :
    List (String × Json) :=
  members.filter fun m => m.1 ≠ k

/-- The members of an object; a value that is no dict has none. -/
def members : Json → List (String × Json)
  | .obj ms => ms
  | _ => []

/-- Python's `bool(v)`: empty strings, lists and dicts, zeros, `False`
and `None` are falsy. -/
def truthy : Json → Bool
  | .null => false
  | .bool b => b
  | .int n => n != 0
  | .float r => !(r == "0.0" || r == "-0.0")
  | .str s => s != ""
  | .arr xs => !xs.isEmpty
  | .obj ms => !ms.isEmpty

-- ============================================================ merge patch

mutual

/-- `_json_merge_patch(original, patch)`. -/
def jsonMergePatch (original : Json) : Json → Json
  | .obj patch => .obj (mergeMembers original.members patch)
  | patch => patch

/-- The `for k, v in patch.items()` loop over the accumulated `out`. -/
def mergeMembers (out : List (String × Json)) :
    List (String × Json) → List (String × Json)
  | [] => out
  | (k, v) :: rest =>
      match v with
      | .null => mergeMembers (popMember out k) rest
      | .obj _ =>
          -- `out.get(k)` is `None` for a key the target lacks
          mergeMembers (setMember out k
            (jsonMergePatch ((getMember out k).getD .null) v)) rest
      | _ => mergeMembers (setMember out k v) rest

end

-- ============================================================ json.dumps

/-- One hexadecimal digit, lower case. -/
def hexDigit (n : Nat) : Char :=
  if n < 10 then Char.ofNat (48 + n) else Char.ofNat (87 + n)

/-- `json.encoder`'s `ESCAPE_DCT` with `ensure_ascii=False`: the quote,
the backslash and the control characters below U+0020. -/
def escapeChar (c : Char) : String :=
  match c.toNat with
  | 0x22 => "\\\""
  | 0x5c => "\\\\"
  | 0x08 => "\\b"
  | 0x0c => "\\f"
  | 0x0a => "\\n"
  | 0x0d => "\\r"
  | 0x09 => "\\t"
  | n =>
      if n < 0x20 then
        String.ofList (['\\', 'u', '0', '0', hexDigit (n / 16),
          hexDigit (n % 16)])
      else String.singleton c

/-- A quoted JSON string. -/
def quote (s : String) : String :=
  "\"" ++ String.join (s.toList.map escapeChar) ++ "\""

mutual

/-- `json.dumps(v, ensure_ascii=False)`, default separators. -/
def dumps : Json → String
  | .null => "null"
  | .bool true => "true"
  | .bool false => "false"
  | .int n => toString n
  | .float repr => repr
  | .str s => quote s
  | .arr xs => "[" ++ dumpsItems xs ++ "]"
  | .obj ms => "\x7b" ++ dumpsMembers ms ++ "\x7d"

/-- The items of a list, separated by `", "`. -/
def dumpsItems : List Json → String
  | [] => ""
  | [x] => dumps x
  | x :: rest => dumps x ++ ", " ++ dumpsItems rest

/-- The members of a dict, separated by `", "`. -/
def dumpsMembers : List (String × Json) → String
  | [] => ""
  | [(k, v)] => quote k ++ ": " ++ dumps v
  | (k, v) :: rest =>
      quote k ++ ": " ++ dumps v ++ ", " ++ dumpsMembers rest

end

/-- `s.encode("utf-8")`. -/
def encodeUtf8 (s : String) : List UInt8 :=
  s.toList.flatMap String.utf8EncodeChar

example : jsonMergePatch
    (.obj [("a", .int 1), ("b", .obj [("c", .null), ("d", .int 2)])])
    (.obj [("a", .null), ("b", .obj [("c", .int 3)])])
    = .obj [("b", .obj [("c", .int 3), ("d", .int 2)])] := by decide

example : dumps (.obj [("a", .arr [.int (-1), .str "x\n"])])
    = "\x7b\"a\": [-1, \"x\\n\"]\x7d" := by decide

end Json

end LegalBot
