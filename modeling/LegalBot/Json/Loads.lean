/-
`json.loads` of a text.

# The scanner

`scanValue` is `scan_once` of the `json` module on the characters that
are left: it returns a value and what follows it. Calls are counted down
in a fuel argument; every call reads a character, so the length of the
text is always enough. Escapes are read as UTF-16 code units and joined
once the string is closed; a lone surrogate, which is no `Char`, reads as
U+FFFD. A number is the longest run of the characters a number may have;
the module reads less of a run that is no number, and then fails at what
follows.

A float is kept by the `repr` of what `float(…)` makes of its text, the
parameter `repr`.

# What it reads

A text that was read is read the same way when more follows, as long as
the end of a number is not in doubt (`scanValue_append`), and with more
calls to spend (`stays`).
-/
import LegalBot.Json.Members

namespace LegalBot.Json

-- ================================================================ characters

/-- `WHITESPACE`. -/
def isJsonSpace (c : Char) : Bool :=
  c = ' ' || c = '\t' || c = '\n' || c = '\r'

def skipSpace (cs : List Char) : List Char := cs.dropWhile isJsonSpace

/-- A hexadecimal digit. -/
def hexValue (c : Char) : Option Nat :=
  if c.isDigit then some (c.toNat - 48)
  else if 97 ≤ c.toNat ∧ c.toNat ≤ 102 then some (c.toNat - 87)
  else if 65 ≤ c.toNat ∧ c.toNat ≤ 70 then some (c.toNat - 55)
  else none

/-- `_decode_uXXXX`. -/
def scanUnit : List Char → Option (Nat × List Char)
  | a :: b :: c :: d :: rest => do
      let a ← hexValue a
      let b ← hexValue b
      let c ← hexValue c
      let d ← hexValue d
      pure (((a * 16 + b) * 16 + c) * 16 + d, rest)
  | _ => none

/-- `BACKSLASH`. -/
def unescape (c : Char) : Option Nat :=
  if c = '"' ∨ c = '\\' ∨ c = '/' then some c.toNat
  else if c = 'b' then some 8
  else if c = 'f' then some 12
  else if c = 'n' then some 10
  else if c = 'r' then some 13
  else if c = 't' then some 9
  else none

/-- One step of `scanstring`, strict; `none` for the closing quote. -/
def scanChar : List Char → Option (Option Nat × List Char)
  | [] => none
  | c :: rest =>
      if c = '"' then some (none, rest)
      else if c = '\\' then
        match rest with
        | [] => none
        | e :: rest =>
            if e = 'u' then
              (scanUnit rest).map fun unit => (some unit.1, unit.2)
            else (unescape e).map fun n => (some n, rest)
      else if c.toNat < 0x20 then none
      else some (some c.toNat, rest)

/-- The units of a string, up to its closing quote. -/
def scanUnits : Nat → List Char → Option (List Nat × List Char)
  | 0, _ => none
  | fuel + 1, cs =>
      match scanChar cs with
      | none => none
      | some (none, rest) => some ([], rest)
      | some (some n, rest) =>
          (scanUnits fuel rest).map fun found => (n :: found.1, found.2)

def charOf (n : Nat) : Char :=
  if n.isValidChar then Char.ofNat n else Char.ofNat 0xfffd

/-- The characters of the units, surrogate pairs joined. -/
def joinUnits : List Nat → List Char
  | hi :: lo :: rest =>
      if (0xd800 ≤ hi ∧ hi < 0xdc00) ∧ 0xdc00 ≤ lo ∧ lo < 0xe000 then
        charOf (0x10000 + ((hi - 0xd800) * 0x400 + (lo - 0xdc00)))
          :: joinUnits rest
      else charOf hi :: joinUnits (lo :: rest)
  | [n] => [charOf n]
  | [] => []

/-- `scanstring` behind the opening quote. -/
def scanString (fuel : Nat) (cs : List Char) :
    Option (String × List Char) :=
  (scanUnits fuel cs).map fun found =>
    (String.ofList (joinUnits found.1), found.2)

-- =================================================================== scalars

def isNumberChar (c : Char) : Bool :=
  c.isDigit || c = '+' || c = '-' || c = '.' || c = 'e' || c = 'E'

/-- `[eE][-+]?\d+`, or nothing. -/
def isExponent : List Char → Bool
  | [] => true
  | c :: rest =>
      let digits :=
        match rest with
        | '+' :: digits | '-' :: digits => digits
        | digits => digits
      (c = 'e' || c = 'E') && !digits.isEmpty && digits.all Char.isDigit

/-- `(\.\d+)?([eE][-+]?\d+)?`. -/
def isFraction : List Char → Bool
  | '.' :: rest =>
      !(rest.takeWhile Char.isDigit).isEmpty
        && isExponent (rest.dropWhile Char.isDigit)
  | cs => isExponent cs

/-- The digits of a number, without its sign. -/
def unsigned : List Char → List Char
  | '-' :: rest => rest
  | cs => cs

/-- A run of number characters as a number, by `NUMBER_RE`. -/
def numberOf (repr : String → String) (token : List Char) : Option Json :=
  let digits := (unsigned token).takeWhile Char.isDigit
  let rest := (unsigned token).dropWhile Char.isDigit
  if digits = [] ∨ (digits.head? = some '0' ∧ digits.length ≠ 1) then none
  else if rest = [] then
    let n : Int := Nat.ofDigitChars 10 digits 0
    some (.int (if token.head? = some '-' then -n else n))
  else if isFraction rest then some (.float (repr (String.ofList token)))
  else none

/-- The constants. -/
def scanConstant : List Char → Option (Json × List Char)
  | 'n' :: 'u' :: 'l' :: 'l' :: rest => some (.null, rest)
  | 't' :: 'r' :: 'u' :: 'e' :: rest => some (.bool true, rest)
  | 'f' :: 'a' :: 'l' :: 's' :: 'e' :: rest => some (.bool false, rest)
  | 'N' :: 'a' :: 'N' :: rest => some (.float "NaN", rest)
  | 'I' :: 'n' :: 'f' :: 'i' :: 'n' :: 'i' :: 't' :: 'y' :: rest =>
      some (.float "Infinity", rest)
  | '-' :: 'I' :: 'n' :: 'f' :: 'i' :: 'n' :: 'i' :: 't' :: 'y' :: rest =>
      some (.float "-Infinity", rest)
  | _ => none

/-- A number or a constant. -/
def scanScalar (repr : String → String) (cs : List Char) :
    Option (Json × List Char) :=
  match scanConstant cs with
  | some found => some found
  | none =>
      (numberOf repr (cs.takeWhile isNumberChar)).map fun v =>
        (v, cs.dropWhile isNumberChar)

-- ==================================================================== values

/-- The character, behind any space. -/
def expect (c : Char) (cs : List Char) : Option (List Char) :=
  match skipSpace cs with
  | [] => none
  | d :: rest => if d = c then some rest else none

mutual

/-- `scan_once`, behind any space. -/
def scanValue (repr : String → String) : Nat → List Char →
    Option (Json × List Char)
  | 0, _ => none
  | fuel + 1, cs =>
      match skipSpace cs with
      | [] => none
      | c :: rest =>
          if c = '"' then
            (scanString fuel rest).map fun found => (.str found.1, found.2)
          else if c = '\x7b' then
            match expect '\x7d' rest with
            | some rest => some (.obj [], rest)
            | none => scanMembers repr fuel [] rest
          else if c = '[' then
            match expect ']' rest with
            | some rest => some (.arr [], rest)
            | none => scanItems repr fuel [] rest
          else scanScalar repr (c :: rest)

/-- `JSONObject` from a key on, over the members read so far. -/
def scanMembers (repr : String → String) : Nat →
    List (String × Json) → List Char → Option (Json × List Char)
  | 0, _, _ => none
  | fuel + 1, d, cs => do
      let rest ← expect '"' cs
      let (k, rest) ← scanString fuel rest
      let rest ← expect ':' rest
      let (v, rest) ← scanValue repr fuel rest
      match expect ',' rest with
      | some rest => scanMembers repr fuel (setMember d k v) rest
      | none => do
          let rest ← expect '\x7d' rest
          pure (.obj (setMember d k v), rest)

/-- `JSONArray` from an item on, over the items read so far. -/
def scanItems (repr : String → String) : Nat → List Json → List Char →
    Option (Json × List Char)
  | 0, _, _ => none
  | fuel + 1, xs, cs => do
      let (x, rest) ← scanValue repr fuel cs
      match expect ',' rest with
      | some rest => scanItems repr fuel (xs ++ [x]) rest
      | none => do
          let rest ← expect ']' rest
          pure (.arr (xs ++ [x]), rest)

end

/-- `json.loads`; `none` is a `JSONDecodeError`. -/
def loads (repr : String → String) (s : String) : Option Json := do
  let (v, rest) ← scanValue repr s.length s.toList
  if skipSpace rest = [] then some v else none

example : loads id "\x7b\"a\": [-1, 2.5, \"x\\n\"], \"a\": null\x7d "
    = some (.obj [("a", .null)]) := by decide +kernel

example : loads id "\x7b\"a\": [1, 2" = none := by decide +kernel

-- ============================================================= what follows

section Append

variable {repr : String → String} {cs rest t : List Char} {c c' : Char}
  {fuel : Nat} {v : Json}

theorem dropWhile_append {p : Char → Bool} (h : cs.dropWhile p ≠ []) :
    (cs ++ t).takeWhile p = cs.takeWhile p
      ∧ (cs ++ t).dropWhile p = cs.dropWhile p ++ t := by
  induction cs with
  | nil => exact absurd rfl h
  | cons c cs ih =>
      rw [List.cons_append]
      by_cases hc : p c = true
      · rw [List.dropWhile_cons_of_pos hc] at h
        obtain ⟨htake, hdrop⟩ := ih h
        rw [List.takeWhile_cons_of_pos hc, List.takeWhile_cons_of_pos hc,
          List.dropWhile_cons_of_pos hc, List.dropWhile_cons_of_pos hc,
          htake, hdrop]
        exact ⟨rfl, rfl⟩
      · rw [List.takeWhile_cons_of_neg hc, List.takeWhile_cons_of_neg hc,
          List.dropWhile_cons_of_neg hc, List.dropWhile_cons_of_neg hc]
        exact ⟨rfl, rfl⟩

theorem skipSpace_append (h : skipSpace cs = c :: rest) :
    skipSpace (cs ++ t) = c :: (rest ++ t) := by
  have hne : cs.dropWhile isJsonSpace ≠ [] := by
    rw [show cs.dropWhile isJsonSpace = c :: rest from h]
    exact List.cons_ne_nil _ _
  exact (dropWhile_append hne).2.trans (congrArg (· ++ t) h)

theorem expect_some :
    expect c cs = some rest ↔ skipSpace cs = c :: rest := by
  unfold expect
  cases skipSpace cs with
  | nil => simp
  | cons d rest' =>
      by_cases hd : d = c
      · simp [hd]
      · simp [hd]

theorem expect_append (h : expect c cs = some rest) :
    expect c (cs ++ t) = some (rest ++ t) :=
  expect_some.mpr (skipSpace_append (expect_some.mp h))

/-- Another character than the one that is there. -/
theorem expect_other (h : skipSpace cs = c :: rest) (hc : c ≠ c') :
    expect c' cs = none := by
  unfold expect
  rw [h]
  exact if_neg hc

theorem scanUnit_append {n : Nat} (h : scanUnit cs = some (n, rest)) :
    scanUnit (cs ++ t) = some (n, rest ++ t) := by
  unfold scanUnit at h
  split at h
  · rename_i a b c d rest'
    show scanUnit (a :: b :: c :: d :: (rest' ++ t)) = _
    unfold scanUnit
    simp only [Option.bind_eq_bind, Option.bind_eq_some_iff,
      Option.pure_def, Option.some.injEq, Prod.mk.injEq] at h ⊢
    obtain ⟨na, ha, nb, hb, nc, hc, nd, hd, hn, rfl⟩ := h
    exact ⟨na, ha, nb, hb, nc, hc, nd, hd, hn, rfl⟩
  · cases h

theorem scanChar_append {u : Option Nat} (h : scanChar cs = some (u, rest)) :
    scanChar (cs ++ t) = some (u, rest ++ t) := by
  cases cs with
  | nil => cases h
  | cons c cs =>
      rw [List.cons_append]
      unfold scanChar at h ⊢
      dsimp only at h ⊢
      by_cases hquote : c = '"'
      · rw [if_pos hquote] at h ⊢
        injection h with h
        injection h with hu hrest
        rw [← hu, ← hrest]
      rw [if_neg hquote] at h ⊢
      by_cases hslash : c = '\\'
      · rw [if_pos hslash] at h ⊢
        cases cs with
        | nil => cases h
        | cons e cs =>
            rw [List.cons_append]
            dsimp only at h ⊢
            by_cases hu : e = 'u'
            · rw [if_pos hu] at h ⊢
              obtain ⟨⟨n, rest'⟩, hunit, heq⟩ := Option.map_eq_some_iff.mp h
              injection heq with hn hrest
              rw [scanUnit_append hunit, ← hn, ← hrest]
              rfl
            · rw [if_neg hu] at h ⊢
              obtain ⟨n, hn, heq⟩ := Option.map_eq_some_iff.mp h
              injection heq with hu hrest
              rw [hn, ← hu, ← hrest]
              rfl
      rw [if_neg hslash] at h ⊢
      split at h
      · cases h
      · rename_i hcontrol
        rw [if_neg hcontrol]
        injection h with h
        injection h with hu hrest
        rw [← hu, ← hrest]

theorem scanUnits_append {units : List Nat}
    (h : scanUnits fuel cs = some (units, rest)) :
    scanUnits fuel (cs ++ t) = some (units, rest ++ t) := by
  induction fuel generalizing cs units rest with
  | zero => cases h
  | succ fuel ih =>
      rw [scanUnits] at h ⊢
      cases hchar : scanChar cs with
      | none =>
          rw [hchar] at h
          cases h
      | some found =>
          obtain ⟨u, rest'⟩ := found
          rw [hchar] at h
          rw [scanChar_append hchar]
          cases u with
          | none =>
              injection h with h
              injection h with hunits hrest
              rw [← hunits, ← hrest]
          | some n =>
              obtain ⟨⟨units', rest''⟩, hunits, heq⟩ :=
                Option.map_eq_some_iff.mp h
              injection heq with hn hrest
              dsimp only
              rw [ih hunits, ← hn, ← hrest]
              rfl

theorem scanString_append {s : String}
    (h : scanString fuel cs = some (s, rest)) :
    scanString fuel (cs ++ t) = some (s, rest ++ t) := by
  unfold scanString at h ⊢
  obtain ⟨⟨units, rest'⟩, hunits, heq⟩ := Option.map_eq_some_iff.mp h
  injection heq with hs hrest
  rw [scanUnits_append hunits, ← hs, ← hrest]
  rfl

theorem scanConstant_append (h : scanConstant cs = some (v, rest)) :
    scanConstant (cs ++ t) = some (v, rest ++ t) := by
  unfold scanConstant at h
  split at h
  all_goals first
    | injection h with h
      injection h with hv hrest
      rw [← hv, ← hrest]
      rfl
    | cases h

/-- A number starts with a digit, behind its sign. -/
theorem numberOf_head {token : List Char}
    (h : numberOf repr token = some v) :
    ∃ d r, d.isDigit = true ∧ (token = d :: r ∨ token = '-' :: d :: r) := by
  have hdigits : (unsigned token).takeWhile Char.isDigit ≠ [] := by
    intro hnone
    unfold numberOf at h
    rw [if_pos (Or.inl hnone)] at h
    cases h
  have hhead : ∃ d r, d.isDigit = true ∧ unsigned token = d :: r := by
    cases hcs : unsigned token with
    | nil =>
        rw [hcs] at hdigits
        exact absurd rfl hdigits
    | cons d r =>
        rw [hcs] at hdigits
        by_cases hd : d.isDigit = true
        · exact ⟨d, r, hd, rfl⟩
        · rw [List.takeWhile_cons_of_neg hd] at hdigits
          exact absurd rfl hdigits
  obtain ⟨d, r, hd, hcs⟩ := hhead
  unfold unsigned at hcs
  split at hcs
  · exact ⟨d, r, hd, Or.inr (by rw [hcs])⟩
  · exact ⟨d, r, hd, Or.inl hcs⟩

/-- No constant starts as a number does. -/
theorem scanConstant_number {d : Char} (hd : d.isDigit = true)
    (h : cs = d :: rest ∨ cs = '-' :: d :: rest) :
    scanConstant cs = none := by
  unfold scanConstant
  split
  all_goals first
    | rfl
    | rcases h with h | h
      · injection h with hc _
        rw [← hc] at hd
        cases hd
      · injection h with hc h
        first
          | exact absurd hc (by decide)
          | injection h with hc _
            rw [← hc] at hd
            cases hd

theorem scanScalar_append (hne : rest ≠ [])
    (h : scanScalar repr cs = some (v, rest)) :
    scanScalar repr (cs ++ t) = some (v, rest ++ t) := by
  unfold scanScalar at h ⊢
  cases hconstant : scanConstant cs with
  | some found =>
      obtain ⟨w, rest'⟩ := found
      rw [hconstant] at h
      rw [scanConstant_append hconstant]
      injection h with h
      injection h with hv hrest
      rw [← hv, ← hrest]
  | none =>
      rw [hconstant] at h
      obtain ⟨w, hnumber, heq⟩ := Option.map_eq_some_iff.mp h
      injection heq with hv hrest
      have hdrop : cs.dropWhile isNumberChar ≠ [] := hrest ▸ hne
      obtain ⟨htake', hdrop'⟩ := dropWhile_append (t := t) hdrop
      obtain ⟨d, r, hd, htoken⟩ := numberOf_head hnumber
      have hcs : cs ++ t = d :: (r ++ cs.dropWhile isNumberChar ++ t)
          ∨ cs ++ t = '-' :: d :: (r ++ cs.dropWhile isNumberChar ++ t) := by
        have hall := List.takeWhile_append_dropWhile
          (p := isNumberChar) (l := cs)
        rcases htoken with htoken | htoken
        · rw [htoken] at hall
          refine Or.inl ?_
          show cs ++ t = d :: r ++ cs.dropWhile isNumberChar ++ t
          rw [hall]
        · rw [htoken] at hall
          refine Or.inr ?_
          show cs ++ t = '-' :: d :: r ++ cs.dropWhile isNumberChar ++ t
          rw [hall]
      have hnone : scanConstant (cs ++ t) = none := by
        rcases hcs with hcs | hcs
        · exact scanConstant_number hd (Or.inl hcs)
        · exact scanConstant_number hd (Or.inr hcs)
      rw [hnone]
      dsimp only
      rw [htake', hdrop', hnumber, ← hv, ← hrest]
      rfl

/-- The end of a number is in doubt where the text ends. -/
def EndsClear (v : Json) (rest : List Char) : Prop :=
  rest ≠ [] ∨ (∃ s, v = .str s) ∨ (∃ xs, v = .arr xs) ∨ ∃ ms, v = .obj ms

/-- The three scanners, with the same fuel. -/
structure Appends (repr : String → String) (t : List Char) (fuel : Nat) :
    Prop where
  value : ∀ {cs v rest}, scanValue repr fuel cs = some (v, rest) →
    EndsClear v rest → scanValue repr fuel (cs ++ t) = some (v, rest ++ t)
  members : ∀ {d cs v rest},
    scanMembers repr fuel d cs = some (v, rest) →
    scanMembers repr fuel d (cs ++ t) = some (v, rest ++ t)
  items : ∀ {xs cs v rest}, scanItems repr fuel xs cs = some (v, rest) →
    scanItems repr fuel xs (cs ++ t) = some (v, rest ++ t)

theorem expect_clear (h : expect c cs = some rest) : EndsClear v cs := by
  refine Or.inl fun hnil => ?_
  rw [hnil] at h
  cases h

theorem skipSpace_of_scanValue {found : Json × List Char}
    (h : scanValue repr fuel cs = some found) : skipSpace cs ≠ [] := by
  intro hnil
  cases fuel with
  | zero => cases h
  | succ fuel =>
      rw [scanValue, hnil] at h
      cases h

/-- A character that is not there is not there when more follows. -/
theorem expect_none_append (h : expect c cs = none)
    (hne : skipSpace cs ≠ []) : expect c (cs ++ t) = none := by
  cases hcs : skipSpace cs with
  | nil => exact absurd hcs hne
  | cons d rest =>
      refine expect_other (skipSpace_append hcs) fun hd => ?_
      rw [expect_some.mpr (hd ▸ hcs)] at h
      cases h

theorem scanMembers_append (ih : Appends repr t fuel)
    {d : List (String × Json)}
    (h : scanMembers repr (fuel + 1) d cs = some (v, rest)) :
    scanMembers repr (fuel + 1) d (cs ++ t) = some (v, rest ++ t) := by
  rw [scanMembers] at h ⊢
  obtain ⟨rest₁, hquote, h⟩ := Option.bind_eq_some_iff.mp h
  obtain ⟨⟨k, rest₂⟩, hkey, h⟩ := Option.bind_eq_some_iff.mp h
  obtain ⟨rest₃, hcolon, h⟩ := Option.bind_eq_some_iff.mp h
  obtain ⟨⟨w, rest₄⟩, hvalue, h⟩ := Option.bind_eq_some_iff.mp h
  dsimp only at hcolon h
  refine Option.bind_eq_some_iff.mpr ⟨_, expect_append hquote, ?_⟩
  refine Option.bind_eq_some_iff.mpr ⟨_, scanString_append hkey, ?_⟩
  refine Option.bind_eq_some_iff.mpr ⟨_, expect_append hcolon, ?_⟩
  cases hcomma : expect ',' rest₄ with
  | some rest₅ =>
      rw [hcomma] at h
      refine Option.bind_eq_some_iff.mpr
        ⟨_, ih.value hvalue (expect_clear hcomma), ?_⟩
      dsimp only
      rw [expect_append hcomma]
      exact ih.members h
  | none =>
      rw [hcomma] at h
      obtain ⟨rest₅, hclose, h⟩ := Option.bind_eq_some_iff.mp h
      injection h with h
      injection h with hv hrest
      refine Option.bind_eq_some_iff.mpr
        ⟨_, ih.value hvalue (expect_clear hclose), ?_⟩
      dsimp only
      rw [expect_other (expect_some.mp (expect_append hclose)) (by decide),
        expect_append hclose, ← hv, ← hrest]
      rfl

theorem scanItems_append (ih : Appends repr t fuel) {xs : List Json}
    (h : scanItems repr (fuel + 1) xs cs = some (v, rest)) :
    scanItems repr (fuel + 1) xs (cs ++ t) = some (v, rest ++ t) := by
  rw [scanItems] at h ⊢
  obtain ⟨⟨x, rest₁⟩, hvalue, h⟩ := Option.bind_eq_some_iff.mp h
  dsimp only at h
  cases hcomma : expect ',' rest₁ with
  | some rest₂ =>
      rw [hcomma] at h
      refine Option.bind_eq_some_iff.mpr
        ⟨_, ih.value hvalue (expect_clear hcomma), ?_⟩
      dsimp only
      rw [expect_append hcomma]
      exact ih.items h
  | none =>
      rw [hcomma] at h
      obtain ⟨rest₂, hclose, h⟩ := Option.bind_eq_some_iff.mp h
      injection h with h
      injection h with hv hrest
      refine Option.bind_eq_some_iff.mpr
        ⟨_, ih.value hvalue (expect_clear hclose), ?_⟩
      dsimp only
      rw [expect_other (expect_some.mp (expect_append hclose)) (by decide),
        expect_append hclose, ← hv, ← hrest]
      rfl

/-- A number or a constant is no string, list or dictionary. -/
theorem scanScalar_ends (h : scanScalar repr cs = some (v, rest))
    (hclear : EndsClear v rest) : rest ≠ [] := by
  have hv : (∀ s, v ≠ .str s) ∧ (∀ xs, v ≠ .arr xs) ∧ ∀ ms, v ≠ .obj ms := by
    unfold scanScalar at h
    cases hconstant : scanConstant cs with
    | some found =>
        rw [hconstant] at h
        injection h with h
        rw [h] at hconstant
        unfold scanConstant at hconstant
        split at hconstant
        all_goals first
          | injection hconstant with hfound
            injection hfound with hv _
            rw [← hv]
            simp
          | cases hconstant
    | none =>
        rw [hconstant] at h
        obtain ⟨w, hnumber, heq⟩ := Option.map_eq_some_iff.mp h
        injection heq with hw _
        rw [← hw]
        unfold numberOf at hnumber
        dsimp only at hnumber
        split_ifs at hnumber
        all_goals
          injection hnumber with hnumber
          rw [← hnumber]
          simp
  rcases hclear with hne | ⟨s, hs⟩ | ⟨xs, hxs⟩ | ⟨ms, hms⟩
  · exact hne
  · exact absurd hs (hv.1 s)
  · exact absurd hxs (hv.2.1 xs)
  · exact absurd hms (hv.2.2 ms)

/-- What stands behind an opening bracket is not nothing. -/
theorem skipSpace_of_scanItems {xs : List Json} {found : Json × List Char}
    (h : scanItems repr fuel xs cs = some found) : skipSpace cs ≠ [] := by
  cases fuel with
  | zero => cases h
  | succ fuel =>
      rw [scanItems] at h
      obtain ⟨_, hvalue, _⟩ := Option.bind_eq_some_iff.mp h
      exact skipSpace_of_scanValue hvalue

theorem skipSpace_of_scanMembers {d : List (String × Json)}
    {found : Json × List Char}
    (h : scanMembers repr fuel d cs = some found) : skipSpace cs ≠ [] := by
  cases fuel with
  | zero => cases h
  | succ fuel =>
      rw [scanMembers] at h
      obtain ⟨_, hquote, _⟩ := Option.bind_eq_some_iff.mp h
      rw [expect_some.mp hquote]
      exact List.cons_ne_nil _ _

theorem scanValue_step (ih : Appends repr t fuel)
    (h : scanValue repr (fuel + 1) cs = some (v, rest))
    (hclear : EndsClear v rest) :
    scanValue repr (fuel + 1) (cs ++ t) = some (v, rest ++ t) := by
  cases hcs : skipSpace cs with
  | nil => exact absurd hcs (skipSpace_of_scanValue h)
  | cons c rest₁ =>
      rw [scanValue] at h ⊢
      rw [hcs] at h
      rw [skipSpace_append hcs]
      dsimp only at h ⊢
      by_cases hquote : c = '"'
      · rw [if_pos hquote] at h ⊢
        obtain ⟨⟨s, rest₂⟩, hs, heq⟩ := Option.map_eq_some_iff.mp h
        injection heq with hv hrest
        rw [scanString_append hs, ← hv, ← hrest]
        rfl
      rw [if_neg hquote] at h ⊢
      by_cases hobj : c = '\x7b'
      · rw [if_pos hobj] at h ⊢
        cases hempty : expect '\x7d' rest₁ with
        | some rest₂ =>
            rw [hempty] at h
            injection h with h
            injection h with hv hrest
            rw [expect_append hempty, ← hv, ← hrest]
        | none =>
            rw [hempty] at h
            rw [expect_none_append hempty (skipSpace_of_scanMembers h)]
            exact ih.members h
      rw [if_neg hobj] at h ⊢
      by_cases harr : c = '['
      · rw [if_pos harr] at h ⊢
        cases hempty : expect ']' rest₁ with
        | some rest₂ =>
            rw [hempty] at h
            injection h with h
            injection h with hv hrest
            rw [expect_append hempty, ← hv, ← hrest]
        | none =>
            rw [hempty] at h
            rw [expect_none_append hempty (skipSpace_of_scanItems h)]
            exact ih.items h
      · rw [if_neg harr] at h ⊢
        exact scanScalar_append (scanScalar_ends h hclear) h

theorem appends (repr : String → String) (t : List Char) (fuel : Nat) :
    Appends repr t fuel := by
  induction fuel with
  | zero =>
      constructor
      · intro _ _ _ h
        cases h
      · intro _ _ _ _ h
        cases h
      · intro _ _ _ _ h
        cases h
  | succ fuel ih =>
      exact ⟨scanValue_step ih, scanMembers_append ih, scanItems_append ih⟩

/-- A value that was read is read the same way when more follows. -/
theorem scanValue_append (h : scanValue repr fuel cs = some (v, rest))
    (hclear : EndsClear v rest) :
    scanValue repr fuel (cs ++ t) = some (v, rest ++ t) :=
  (appends repr t fuel).value h hclear

end Append

-- ===================================================================== calls

section Fuel

variable {repr : String → String} {fuel more : Nat}

theorem scanUnits_more {cs : List Char} {found : List Nat × List Char}
    (h : scanUnits fuel cs = some found) (hle : fuel ≤ more) :
    scanUnits more cs = some found := by
  induction fuel generalizing cs more found with
  | zero => cases h
  | succ fuel ih =>
      cases more with
      | zero => cases hle
      | succ more =>
          have hle := Nat.le_of_succ_le_succ hle
          rw [scanUnits] at h ⊢
          cases hchar : scanChar cs with
          | none =>
              rw [hchar] at h
              cases h
          | some next =>
              obtain ⟨u, rest⟩ := next
              rw [hchar] at h
              cases u with
              | none => exact h
              | some n =>
                  obtain ⟨units, hunits, heq⟩ :=
                    Option.map_eq_some_iff.mp h
                  exact Option.map_eq_some_iff.mpr
                    ⟨units, ih hunits hle, heq⟩

theorem scanString_more {cs : List Char} {found : String × List Char}
    (h : scanString fuel cs = some found) (hle : fuel ≤ more) :
    scanString more cs = some found := by
  obtain ⟨units, hunits, heq⟩ := Option.map_eq_some_iff.mp h
  exact Option.map_eq_some_iff.mpr ⟨units, scanUnits_more hunits hle, heq⟩

/-- More calls read the same. -/
structure Stays (repr : String → String) (fuel : Nat) : Prop where
  value : ∀ {more cs found}, scanValue repr fuel cs = some found →
    fuel ≤ more → scanValue repr more cs = some found
  members : ∀ {more d cs found}, scanMembers repr fuel d cs = some found →
    fuel ≤ more → scanMembers repr more d cs = some found
  items : ∀ {more xs cs found}, scanItems repr fuel xs cs = some found →
    fuel ≤ more → scanItems repr more xs cs = some found

variable {cs : List Char} {found : Json × List Char}

theorem scanValue_more (ih : Stays repr fuel)
    (h : scanValue repr (fuel + 1) cs = some found) (hle : fuel ≤ more) :
    scanValue repr (more + 1) cs = some found := by
  cases hcs : skipSpace cs with
  | nil => exact absurd hcs (skipSpace_of_scanValue h)
  | cons c rest =>
      rw [scanValue, hcs] at h ⊢
      dsimp only at h ⊢
      by_cases hquote : c = '"'
      · rw [if_pos hquote] at h ⊢
        obtain ⟨s, hs, heq⟩ := Option.map_eq_some_iff.mp h
        exact Option.map_eq_some_iff.mpr ⟨s, scanString_more hs hle, heq⟩
      rw [if_neg hquote] at h ⊢
      by_cases hobj : c = '\x7b'
      · rw [if_pos hobj] at h ⊢
        cases hempty : expect '\x7d' rest with
        | some rest' =>
            rw [hempty] at h
            exact h
        | none =>
            rw [hempty] at h
            exact ih.members h hle
      rw [if_neg hobj] at h ⊢
      by_cases harr : c = '['
      · rw [if_pos harr] at h ⊢
        cases hempty : expect ']' rest with
        | some rest' =>
            rw [hempty] at h
            exact h
        | none =>
            rw [hempty] at h
            exact ih.items h hle
      · rw [if_neg harr] at h ⊢
        exact h

theorem scanMembers_more (ih : Stays repr fuel) {d : List (String × Json)}
    (h : scanMembers repr (fuel + 1) d cs = some found)
    (hle : fuel ≤ more) :
    scanMembers repr (more + 1) d cs = some found := by
  rw [scanMembers] at h ⊢
  obtain ⟨rest₁, hquote, h⟩ := Option.bind_eq_some_iff.mp h
  obtain ⟨key, hkey, h⟩ := Option.bind_eq_some_iff.mp h
  obtain ⟨rest₃, hcolon, h⟩ := Option.bind_eq_some_iff.mp h
  obtain ⟨⟨w, rest₄⟩, hvalue, h⟩ := Option.bind_eq_some_iff.mp h
  refine Option.bind_eq_some_iff.mpr ⟨_, hquote, ?_⟩
  refine Option.bind_eq_some_iff.mpr ⟨_, scanString_more hkey hle, ?_⟩
  refine Option.bind_eq_some_iff.mpr ⟨_, hcolon, ?_⟩
  refine Option.bind_eq_some_iff.mpr ⟨_, ih.value hvalue hle, ?_⟩
  dsimp only at h ⊢
  cases hcomma : expect ',' rest₄ with
  | some rest₅ =>
      rw [hcomma] at h
      exact ih.members h hle
  | none =>
      rw [hcomma] at h
      exact h

theorem scanItems_more (ih : Stays repr fuel) {xs : List Json}
    (h : scanItems repr (fuel + 1) xs cs = some found)
    (hle : fuel ≤ more) :
    scanItems repr (more + 1) xs cs = some found := by
  rw [scanItems] at h ⊢
  obtain ⟨⟨w, rest⟩, hvalue, h⟩ := Option.bind_eq_some_iff.mp h
  refine Option.bind_eq_some_iff.mpr ⟨_, ih.value hvalue hle, ?_⟩
  dsimp only at h ⊢
  cases hcomma : expect ',' rest with
  | some rest' =>
      rw [hcomma] at h
      exact ih.items h hle
  | none =>
      rw [hcomma] at h
      exact h

theorem stays (repr : String → String) (fuel : Nat) : Stays repr fuel := by
  induction fuel with
  | zero =>
      constructor
      · intro _ _ _ h
        cases h
      · intro _ _ _ _ h
        cases h
      · intro _ _ _ _ h
        cases h
  | succ fuel ih =>
      constructor
      · intro more _ _ h hle
        cases more with
        | zero => cases hle
        | succ more => exact scanValue_more ih h (Nat.le_of_succ_le_succ hle)
      · intro more _ _ _ h hle
        cases more with
        | zero => cases hle
        | succ more =>
            exact scanMembers_more ih h (Nat.le_of_succ_le_succ hle)
      · intro more _ _ _ h hle
        cases more with
        | zero => cases hle
        | succ more => exact scanItems_more ih h (Nat.le_of_succ_le_succ hle)

end Fuel

-- ================================================================= no values

section Refused

variable {repr : String → String} {s : String} {rest : List Char}

theorem loads_of_scan (h : ∀ fuel, scanValue repr fuel s.toList = none) :
    loads repr s = none := by
  unfold loads
  rw [h]
  rfl

/-- Python prints a text key in single quotes. -/
theorem loads_repr (h : s.toList = '\x7b' :: '\x27' :: rest) :
    loads repr s = none := by
  refine loads_of_scan fun fuel => ?_
  rw [h]
  cases fuel with
  | zero => rfl
  | succ fuel =>
      cases fuel with
      | zero => rfl
      | succ fuel => rfl

/-- The answer to a call that raised is no JSON. -/
theorem loads_error (text : String) :
    loads repr ("Error: " ++ text) = none := by
  refine loads_of_scan fun fuel => ?_
  rw [String.toList_append]
  cases fuel with
  | zero => rfl
  | succ fuel => rfl

end Refused

end LegalBot.Json
