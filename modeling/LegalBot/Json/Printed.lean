/-
What `json.loads` makes of a text that `json.dumps` printed.

# The round trip

Each escape is read as the character it stands for
(`scanChar_escapeChar`), the digits of an integer as the integer
(`numberOf_int`), and the members of a dictionary are assigned in the
order they are printed in. So a printed value is read back
(`loads_dumps`), if it is one that Python has (`IsPython`): its floats
are printed by the `repr` of what is read, and no dictionary in it has a
key twice.

# The cut

A text that was read is read the same way when more follows, so a list
or a dictionary of which only the beginning is there is no JSON
(`loads_cut`).
-/
import Mathlib.Data.List.TakeWhile
import LegalBot.Json.Loads

namespace LegalBot.Json

-- =================================================================== strings

section Strings

variable {c : Char} {cs rest : List Char} {fuel : Nat}

theorem hexValue_hexDigit : ∀ n < 16, hexValue (hexDigit n) = some n := by
  decide

theorem scanUnit_control {n : Nat} (h : n < 0x20) :
    scanUnit ('0' :: '0' :: hexDigit (n / 16) :: hexDigit (n % 16) :: rest)
      = some (n, rest) := by
  have hzero : hexValue '0' = some 0 := rfl
  have hhigh := hexValue_hexDigit (n / 16) (by omega)
  have hlow := hexValue_hexDigit (n % 16) (by omega)
  have hn : ((0 * 16 + 0) * 16 + n / 16) * 16 + n % 16 = n := by omega
  simp only [scanUnit, hzero, hhigh, hlow, Option.bind_eq_bind,
    Option.bind_some, hn, Option.pure_def]

/-- A character that is printed as it is. -/
theorem scanChar_plain (hcontrol : ¬c.toNat < 0x20) (hquote : c.toNat ≠ 0x22)
    (hslash : c.toNat ≠ 0x5c) :
    scanChar (c :: rest) = some (some c.toNat, rest) := by
  have hquote' : c ≠ '"' := fun h => hquote (by rw [h]; rfl)
  have hslash' : c ≠ '\\' := fun h => hslash (by rw [h]; rfl)
  unfold scanChar
  dsimp only
  rw [if_neg hquote', if_neg hslash', if_neg hcontrol]

theorem scanChar_escapeChar :
    scanChar ((escapeChar c).toList ++ rest) = some (some c.toNat, rest) := by
  unfold escapeChar
  split
  · rename_i h
    rw [h]
    rfl
  · rename_i h
    rw [h]
    rfl
  · rename_i h
    rw [h]
    rfl
  · rename_i h
    rw [h]
    rfl
  · rename_i h
    rw [h]
    rfl
  · rename_i h
    rw [h]
    rfl
  · rename_i h
    rw [h]
    rfl
  · rename_i hquote hslash _ _ _ _ _
    by_cases hcontrol : c.toNat < 0x20
    · rw [if_pos hcontrol, String.toList_ofList]
      show (scanUnit ('0' :: '0' :: hexDigit (c.toNat / 16)
        :: hexDigit (c.toNat % 16) :: rest)).map _ = _
      rw [scanUnit_control hcontrol]
      rfl
    · rw [if_neg hcontrol, String.toList_singleton]
      exact scanChar_plain hcontrol hquote hslash

theorem escapeChar_ne_nil : (escapeChar c).toList ≠ [] := by
  intro hnil
  have h : scanChar ((escapeChar c).toList ++ []) = _ := scanChar_escapeChar
  rw [hnil] at h
  cases h

/-- The characters of a quoted string, without its quotes. -/
def escaped (cs : List Char) : List Char :=
  cs.flatMap fun c => (escapeChar c).toList

theorem toList_quote (s : String) :
    (quote s).toList = '"' :: (escaped s.toList ++ ['"']) := by
  unfold quote escaped
  rw [String.toList_append, String.toList_append, String.toList_join,
    List.flatMap_map]
  rfl

theorem length_escaped (cs : List Char) :
    cs.length ≤ (escaped cs).length := by
  induction cs with
  | nil => exact Nat.le_refl 0
  | cons c cs ih =>
      have hpos := List.length_pos_iff.mpr (escapeChar_ne_nil (c := c))
      unfold escaped at ih ⊢
      rw [List.flatMap_cons, List.length_append, List.length_cons]
      omega

theorem scanUnits_escaped (h : cs.length < fuel) :
    scanUnits fuel (escaped cs ++ '"' :: rest)
      = some (cs.map Char.toNat, rest) := by
  induction cs generalizing fuel with
  | nil =>
      cases fuel with
      | zero => cases h
      | succ fuel => rfl
  | cons c cs ih =>
      cases fuel with
      | zero => cases h
      | succ fuel =>
          have hcs : escaped (c :: cs) ++ '"' :: rest
              = (escapeChar c).toList ++ (escaped cs ++ '"' :: rest) := by
            unfold escaped
            rw [List.flatMap_cons, List.append_assoc]
          rw [scanUnits, hcs, scanChar_escapeChar]
          dsimp only
          rw [ih (Nat.lt_of_succ_lt_succ h)]
          rfl

theorem charOf_toNat (c : Char) : charOf c.toNat = c := by
  unfold charOf
  rw [if_pos (show c.toNat.isValidChar from c.valid)]
  exact Char.ofNat_toNat c

/-- No character is half of a surrogate pair. -/
theorem joinUnits_toNat (cs : List Char) :
    joinUnits (cs.map Char.toNat) = cs := by
  induction cs with
  | nil => rfl
  | cons c cs ih =>
      cases cs with
      | nil => exact congrArg (· :: []) (charOf_toNat c)
      | cons d cs =>
          have hvalid : c.toNat < 0xd800 ∨ 0xdfff < c.toNat ∧ _ := c.valid
          rw [List.map_cons, List.map_cons, joinUnits, if_neg (by omega),
            charOf_toNat]
          exact congrArg (c :: ·) ih

theorem scanString_escaped {s : String} (h : s.toList.length < fuel) :
    scanString fuel (escaped s.toList ++ '"' :: rest) = some (s, rest) := by
  unfold scanString
  rw [scanUnits_escaped h, Option.map_some, joinUnits_toNat,
    String.ofList_toList]

end Strings

-- =================================================================== scalars

/-- The text does not go on with a number. -/
def Ends (rest : List Char) : Prop :=
  ∀ c ∈ rest.head?, isNumberChar c = false

section Scalars

variable {repr : String → String} {v : Json} {token rest : List Char}
  {fuel : Nat}

theorem ends_nil : Ends [] := fun _ h => nomatch h

theorem ends_cons {c : Char} (h : isNumberChar c = false) :
    Ends (c :: rest) := by
  intro d hd
  cases hd
  exact h

theorem takeWhile_token (h : ∀ c ∈ token, isNumberChar c = true)
    (hrest : Ends rest) :
    (token ++ rest).takeWhile isNumberChar = token
      ∧ (token ++ rest).dropWhile isNumberChar = rest := by
  rw [List.takeWhile_append_of_pos h, List.dropWhile_append_of_pos h]
  cases rest with
  | nil => exact ⟨List.append_nil token, rfl⟩
  | cons c rest =>
      have hc := hrest c rfl
      rw [List.takeWhile_cons_of_neg (by simp [hc]),
        List.dropWhile_cons_of_neg (by simp [hc])]
      exact ⟨List.append_nil token, rfl⟩

theorem scanScalar_number (h : ∀ c ∈ token, isNumberChar c = true)
    (hnumber : numberOf repr token = some v) (hrest : Ends rest) :
    scanScalar repr (token ++ rest) = some (v, rest) := by
  obtain ⟨htake, hdrop⟩ := takeWhile_token h hrest
  obtain ⟨d, r, hd, htoken⟩ := numberOf_head hnumber
  have hcs : token ++ rest = d :: (r ++ rest)
      ∨ token ++ rest = '-' :: d :: (r ++ rest) := by
    rcases htoken with htoken | htoken
    · exact Or.inl (congrArg (· ++ rest) htoken)
    · exact Or.inr (congrArg (· ++ rest) htoken)
  unfold scanScalar
  rw [scanConstant_number hd hcs]
  dsimp only
  rw [htake, hdrop, hnumber]
  rfl

theorem digit_facts {d : Char} (h : d.isDigit = true) :
    isNumberChar d = true ∧ isJsonSpace d = false ∧ d ≠ '"' ∧ d ≠ '\x7b'
      ∧ d ≠ '[' ∧ d ≠ ']' ∧ d ≠ '-' := by
  refine ⟨?_, ?_, ?_⟩
  · unfold isNumberChar
    rw [h]
    rfl
  · unfold isJsonSpace
    simp only [Bool.or_eq_false_iff, decide_eq_false_iff_not]
    refine ⟨⟨⟨?_, ?_⟩, ?_⟩, ?_⟩
    all_goals
      intro hd
      rw [hd] at h
      cases h
  · refine ⟨?_, ?_, ?_, ?_, ?_⟩
    all_goals
      intro hd
      rw [hd] at h
      cases h

/-- No leading zero. -/
theorem head_toDigits {n : Nat} (hn : 0 < n) :
    (Nat.toDigits 10 n).head? ≠ some '0' := by
  induction n using Nat.strongRecOn with
  | ind n ih =>
      by_cases hlt : n < 10
      · rw [Nat.toDigits_of_lt_base hlt]
        intro h
        have h0 := Nat.digitChar_eq_zero.mp (Option.some.inj h)
        omega
      · have ih := ih (n / 10) (by omega) (by omega)
        rw [Nat.toDigits_of_base_le (by decide) (by omega)]
        cases hcs : Nat.toDigits 10 (n / 10) with
        | nil => exact absurd hcs Nat.toDigits_ne_nil
        | cons c cs =>
            rw [hcs] at ih
            exact ih

theorem isDigit_toDigits {n : Nat} :
    ∀ c ∈ Nat.toDigits 10 n, c.isDigit = true := fun _ hc =>
  Nat.isDigit_of_mem_toDigits (by decide) (by decide) hc

theorem unsigned_digits {n : Nat} :
    unsigned (Nat.toDigits 10 n) = Nat.toDigits 10 n := by
  unfold unsigned
  split
  · rename_i rest hdigits
    have hminus := isDigit_toDigits (n := n) '-' (by simp [hdigits])
    cases hminus
  · rfl

theorem numberOf_digits {n : Nat} (sign : Bool)
    (htoken : unsigned token = Nat.toDigits 10 n)
    (hsign : token.head? = some '-' ↔ sign = true) :
    numberOf repr token = some (.int (if sign then -n else n)) := by
  have htake : (Nat.toDigits 10 n).takeWhile Char.isDigit
      = Nat.toDigits 10 n := List.takeWhile_eq_self_iff.mpr isDigit_toDigits
  have hdrop : (Nat.toDigits 10 n).dropWhile Char.isDigit = [] :=
    List.dropWhile_eq_nil_iff.mpr isDigit_toDigits
  have hzero : ¬((Nat.toDigits 10 n).head? = some '0'
      ∧ (Nat.toDigits 10 n).length ≠ 1) := by
    rintro ⟨hhead, hlength⟩
    rcases Nat.eq_zero_or_pos n with rfl | hn
    · exact hlength (by simp)
    · exact head_toDigits hn hhead
  unfold numberOf
  dsimp only
  rw [htoken, htake, hdrop, if_neg (not_or.mpr ⟨Nat.toDigits_ne_nil, hzero⟩),
    if_pos rfl, Nat.ofDigitChars_ten_toDigits]
  simp only [hsign]

/-- The text of an integer is the integer as a number. -/
theorem numberOf_int (repr : String → String) (n : Int) :
    (∀ c ∈ (toString n).toList, isNumberChar c = true)
      ∧ numberOf repr (toString n).toList = some (.int n) := by
  cases n with
  | ofNat n =>
      have hcs : (toString (Int.ofNat n)).toList = Nat.toDigits 10 n :=
        Nat.toList_repr
      have hsign : (Nat.toDigits 10 n).head? = some '-' ↔ false = true := by
        refine iff_of_false (fun h => ?_) Bool.false_ne_true
        cases isDigit_toDigits _ (List.mem_of_head? h)
      rw [hcs]
      refine ⟨fun c hc => ?_, numberOf_digits false unsigned_digits hsign⟩
      exact (digit_facts (isDigit_toDigits c hc)).1
  | negSucc n =>
      have hcs : (toString (Int.negSucc n)).toList
          = '-' :: Nat.toDigits 10 (n + 1) := by
        show ("-" ++ Nat.repr (n + 1)).toList = _
        rw [String.toList_append, Nat.toList_repr]
        rfl
      rw [hcs]
      refine ⟨fun c hc => ?_,
        numberOf_digits (n := n + 1) true rfl (by simp)⟩
      rcases List.mem_cons.mp hc with rfl | hc
      · rfl
      · exact (digit_facts (isDigit_toDigits c hc)).1

end Scalars

-- ==================================================================== values

mutual

/-- Every float is printed by the `repr` of what is read. -/
def PrintedFloats (repr : String → String) : Json → Prop
  | .float r =>
      r = "NaN" ∨ r = "Infinity" ∨ r = "-Infinity"
        ∨ (∀ c ∈ r.toList, isNumberChar c = true)
          ∧ numberOf repr r.toList = some (.float r)
  | .arr xs => PrintedItems repr xs
  | .obj ms => PrintedMembers repr ms
  | _ => True

/-- `PrintedFloats` of the items. -/
def PrintedItems (repr : String → String) : List Json → Prop
  | [] => True
  | x :: rest => PrintedFloats repr x ∧ PrintedItems repr rest

/-- `PrintedFloats` of the values. -/
def PrintedMembers (repr : String → String) :
    List (String × Json) → Prop
  | [] => True
  | (_, v) :: rest => PrintedFloats repr v ∧ PrintedMembers repr rest

end

instance (cs : List Char) :
    Decidable (∀ c ∈ cs, isNumberChar c = true) :=
  List.decidableBAll (fun c => isNumberChar c = true) cs

mutual

/-- `PrintedFloats` is decided value by value. -/
def decPrintedFloats (repr : String → String) :
    (v : Json) → Decidable (PrintedFloats repr v)
  | .float r =>
      inferInstanceAs (Decidable (r = "NaN" ∨ r = "Infinity"
        ∨ r = "-Infinity" ∨ (∀ c ∈ r.toList, isNumberChar c = true)
          ∧ numberOf repr r.toList = some (.float r)))
  | .arr xs => decPrintedItems repr xs
  | .obj ms => decPrintedMembers repr ms
  | .null | .bool _ | .int _ | .str _ => isTrue trivial

/-- `PrintedItems` is decided item by item. -/
def decPrintedItems (repr : String → String) :
    (xs : List Json) → Decidable (PrintedItems repr xs)
  | [] => isTrue trivial
  | x :: rest =>
      @instDecidableAnd _ _ (decPrintedFloats repr x)
        (decPrintedItems repr rest)

/-- `PrintedMembers` is decided member by member. -/
def decPrintedMembers (repr : String → String) :
    (ms : List (String × Json)) → Decidable (PrintedMembers repr ms)
  | [] => isTrue trivial
  | (_, v) :: rest =>
      @instDecidableAnd _ _ (decPrintedFloats repr v)
        (decPrintedMembers repr rest)

end

instance (repr : String → String) (v : Json) :
    Decidable (PrintedFloats repr v) := decPrintedFloats repr v

section Values

variable {repr : String → String} {v : Json} {cs rest : List Char}
  {c : Char} {fuel : Nat}

theorem skipSpace_cons (h : isJsonSpace c = false) :
    skipSpace (c :: rest) = c :: rest :=
  List.dropWhile_cons_of_neg (by simp [h])

theorem expect_cons (h : isJsonSpace c = false) :
    expect c (c :: rest) = some rest := expect_some.mpr (skipSpace_cons h)

/-- The text of a number or a constant. -/
structure ScalarText (repr : String → String) (cs : List Char) (v : Json) :
    Prop where
  first : ∃ c r, cs = c :: r ∧ isJsonSpace c = false ∧ c ≠ '"'
    ∧ c ≠ '\x7b' ∧ c ≠ '[' ∧ c ≠ ']'
  scan : ∀ rest, Ends rest → scanScalar repr (cs ++ rest) = some (v, rest)

theorem scalarText_number (h : ∀ c ∈ cs, isNumberChar c = true)
    (hnumber : numberOf repr cs = some v) : ScalarText repr cs v := by
  refine ⟨?_, fun rest hrest => scanScalar_number h hnumber hrest⟩
  obtain ⟨d, r, hd, htoken | htoken⟩ := numberOf_head hnumber
  · obtain ⟨_, hspace, hquote, hbrace, hopen, hclose, _⟩ := digit_facts hd
    exact ⟨d, r, htoken, hspace, hquote, hbrace, hopen, hclose⟩
  · exact ⟨'-', d :: r, htoken, rfl, by decide⟩

theorem scalarText_null (repr : String → String) :
    ScalarText repr (dumps .null).toList .null :=
  ⟨⟨'n', _, rfl, rfl, by decide⟩, fun _ _ => rfl⟩

theorem scalarText_bool (repr : String → String) (b : Bool) :
    ScalarText repr (dumps (.bool b)).toList (.bool b) := by
  cases b with
  | true => exact ⟨⟨'t', _, rfl, rfl, by decide⟩, fun _ _ => rfl⟩
  | false => exact ⟨⟨'f', _, rfl, rfl, by decide⟩, fun _ _ => rfl⟩

theorem scalarText_int (repr : String → String) (n : Int) :
    ScalarText repr (dumps (.int n)).toList (.int n) :=
  scalarText_number (numberOf_int repr n).1 (numberOf_int repr n).2

theorem scalarText_float {r : String} (h : PrintedFloats repr (.float r)) :
    ScalarText repr (dumps (.float r)).toList (.float r) := by
  rw [PrintedFloats] at h
  rcases h with rfl | rfl | rfl | ⟨hchars, hnumber⟩
  · exact ⟨⟨'N', _, rfl, rfl, by decide⟩, fun _ _ => rfl⟩
  · exact ⟨⟨'I', _, rfl, rfl, by decide⟩, fun _ _ => rfl⟩
  · exact ⟨⟨'-', _, rfl, rfl, by decide⟩, fun _ _ => rfl⟩
  · exact scalarText_number hchars hnumber

theorem scanValue_scalar (h : ScalarText repr cs v) (hrest : Ends rest)
    (hfuel : cs.length ≤ fuel) :
    scanValue repr fuel (cs ++ rest) = some (v, rest) := by
  obtain ⟨c, r, rfl, hspace, hquote, hbrace, hopen, _⟩ := h.first
  cases fuel with
  | zero => cases hfuel
  | succ fuel =>
      rw [List.cons_append, scanValue, skipSpace_cons hspace]
      dsimp only
      rw [if_neg hquote, if_neg hbrace, if_neg hopen]
      exact h.scan rest hrest

/-- The text starts a value: no space, and no end of a list. -/
def StartsValue (cs : List Char) : Prop :=
  ∃ c r, cs = c :: r ∧ isJsonSpace c = false ∧ c ≠ ']'

theorem ScalarText.starts (h : ScalarText repr cs v) : StartsValue cs := by
  obtain ⟨c, r, hcs, hspace, _, _, _, hclose⟩ := h.first
  exact ⟨c, r, hcs, hspace, hclose⟩

theorem startsValue_append (h : StartsValue cs) :
    StartsValue (cs ++ rest) := by
  obtain ⟨c, r, hcs, hspace, hclose⟩ := h
  exact ⟨c, r ++ rest, congrArg (· ++ rest) hcs, hspace, hclose⟩

theorem expect_startsValue (h : StartsValue cs) : expect ']' cs = none := by
  obtain ⟨c, r, hcs, hspace, hclose⟩ := h
  rw [hcs]
  exact expect_other (skipSpace_cons hspace) hclose

theorem toList_arr (xs : List Json) :
    (dumps (.arr xs)).toList = '[' :: ((dumpsItems xs).toList ++ [']']) := by
  rw [dumps, String.toList_append, String.toList_append]
  rfl

theorem toList_obj (ms : List (String × Json)) :
    (dumps (.obj ms)).toList
      = '\x7b' :: ((dumpsMembers ms).toList ++ ['\x7d']) := by
  rw [dumps, String.toList_append, String.toList_append]
  rfl

theorem startsValue_dumps (h : PrintedFloats repr v) :
    StartsValue (dumps v).toList := by
  cases v with
  | null => exact (scalarText_null repr).starts
  | bool b => exact (scalarText_bool repr b).starts
  | int n => exact (scalarText_int repr n).starts
  | float r => exact (scalarText_float h).starts
  | str s => exact ⟨'"', _, toList_quote s, rfl, by decide⟩
  | arr xs => exact ⟨'[', _, toList_arr xs, rfl, by decide⟩
  | obj ms => exact ⟨'\x7b', _, toList_obj ms, rfl, by decide⟩

theorem dumpsItems_cons (x y : Json) (xs : List Json) :
    (dumpsItems (x :: y :: xs)).toList
      = (dumps x).toList ++ ',' :: ' ' :: (dumpsItems (y :: xs)).toList := by
  rw [dumpsItems, String.toList_append, String.toList_append,
    List.append_assoc]
  · rfl
  · exact List.cons_ne_nil y xs

theorem startsValue_items {x : Json} {xs : List Json}
    (h : PrintedFloats repr x) :
    StartsValue (dumpsItems (x :: xs)).toList := by
  cases xs with
  | nil =>
      rw [dumpsItems]
      exact startsValue_dumps h
  | cons y xs =>
      rw [dumpsItems_cons]
      exact startsValue_append (startsValue_dumps h)

/-- A member as it is printed. -/
def memberText (k : String) (v : Json) : List Char :=
  '"' :: (escaped k.toList ++ '"' :: ':' :: ' ' :: (dumps v).toList)

theorem dumpsMembers_one (k : String) (v : Json) :
    (dumpsMembers [(k, v)]).toList = memberText k v := by
  rw [dumpsMembers, String.toList_append, String.toList_append,
    toList_quote]
  simp [memberText]

theorem dumpsMembers_cons (k : String) (v : Json) (m : String × Json)
    (ms : List (String × Json)) :
    (dumpsMembers ((k, v) :: m :: ms)).toList
      = memberText k v ++ ',' :: ' ' :: (dumpsMembers (m :: ms)).toList := by
  rw [dumpsMembers, String.toList_append, String.toList_append,
    String.toList_append, String.toList_append, toList_quote]
  · simp [memberText]
  · exact List.cons_ne_nil m ms

theorem expect_members {m : String × Json} {ms : List (String × Json)} :
    expect '\x7d' ((dumpsMembers (m :: ms)).toList ++ rest) = none := by
  obtain ⟨k, v⟩ := m
  have hquote : ∀ cs', expect '\x7d' (memberText k v ++ cs') = none :=
    fun _ => rfl
  cases ms with
  | nil =>
      rw [dumpsMembers_one]
      exact hquote rest
  | cons m ms =>
      rw [dumpsMembers_cons, List.append_assoc]
      exact hquote _

-- One step of each scanner, at a space, an item and a member.

theorem scanValue_space :
    scanValue repr fuel (' ' :: cs) = scanValue repr fuel cs := by
  cases fuel with
  | zero => rfl
  | succ fuel =>
      rw [scanValue, scanValue]
      rfl

theorem scanItems_space {xs : List Json} :
    scanItems repr fuel xs (' ' :: cs) = scanItems repr fuel xs cs := by
  cases fuel with
  | zero => rfl
  | succ fuel => rw [scanItems, scanItems, scanValue_space]

theorem scanMembers_space {d : List (String × Json)} :
    scanMembers repr fuel d (' ' :: cs) = scanMembers repr fuel d cs := by
  cases fuel with
  | zero => rfl
  | succ fuel =>
      rw [scanMembers, scanMembers]
      rfl

theorem scanItems_last {xs : List Json}
    (h : scanValue repr fuel cs = some (v, ']' :: rest)) :
    scanItems repr (fuel + 1) xs cs = some (.arr (xs ++ [v]), rest) := by
  rw [scanItems, h]
  rfl

theorem scanItems_next {xs : List Json}
    (h : scanValue repr fuel cs = some (v, ',' :: ' ' :: rest)) :
    scanItems repr (fuel + 1) xs cs
      = scanItems repr fuel (xs ++ [v]) rest := by
  rw [scanItems, h]
  exact scanItems_space

/-- Up to the value of a member. -/
theorem scanMembers_key {d : List (String × Json)} {k : String}
    (hfuel : k.toList.length < fuel) :
    scanMembers repr (fuel + 1) d
        ('"' :: (escaped k.toList ++ '"' :: ':' :: ' ' :: cs))
      = (scanValue repr fuel cs).bind fun found =>
          match expect ',' found.2 with
          | some rest => scanMembers repr fuel (setMember d k found.1) rest
          | none => (expect '\x7d' found.2).bind fun rest =>
              some (.obj (setMember d k found.1), rest) := by
  rw [scanMembers, expect_cons rfl, Option.bind_eq_bind, Option.bind_some,
    scanString_escaped hfuel, Option.bind_eq_bind, Option.bind_some]
  dsimp only
  rw [expect_cons rfl, Option.bind_eq_bind, Option.bind_some,
    scanValue_space]
  rfl

theorem scanMembers_last {d : List (String × Json)} {k : String}
    (hfuel : k.toList.length < fuel)
    (h : scanValue repr fuel cs = some (v, '\x7d' :: rest)) :
    scanMembers repr (fuel + 1) d
        ('"' :: (escaped k.toList ++ '"' :: ':' :: ' ' :: cs))
      = some (.obj (setMember d k v), rest) := by
  rw [scanMembers_key hfuel, h]
  rfl

theorem scanMembers_next {d : List (String × Json)} {k : String}
    (hfuel : k.toList.length < fuel)
    (h : scanValue repr fuel cs = some (v, ',' :: ' ' :: rest)) :
    scanMembers repr (fuel + 1) d
        ('"' :: (escaped k.toList ++ '"' :: ':' :: ' ' :: cs))
      = scanMembers repr fuel (setMember d k v) rest := by
  rw [scanMembers_key hfuel, h]
  exact scanMembers_space

/-- The value is read from its text, whatever follows it. -/
def Reads (repr : String → String) (v : Json) : Prop :=
  ∀ fuel rest, Ends rest → (dumps v).toList.length ≤ fuel →
    scanValue repr fuel ((dumps v).toList ++ rest) = some (v, rest)

/-- So are the items of a list, behind those read so far. -/
def ReadsItems (repr : String → String) (xs : List Json) : Prop :=
  ∀ fuel rest done, (dumpsItems xs).toList.length < fuel →
    scanItems repr fuel done ((dumpsItems xs).toList ++ ']' :: rest)
      = some (.arr (done ++ xs), rest)

/-- And the members of a dictionary. -/
def ReadsMembers (repr : String → String) (ms : List (String × Json)) :
    Prop :=
  ∀ fuel rest d, (dumpsMembers ms).toList.length < fuel →
    scanMembers repr fuel d ((dumpsMembers ms).toList ++ '\x7d' :: rest)
      = some (.obj (assignAll d ms), rest)

theorem reads_scalar (h : ScalarText repr (dumps v).toList v) :
    Reads repr v := fun _ _ hrest hfuel => scanValue_scalar h hrest hfuel

theorem reads_str (s : String) : Reads repr (.str s) := by
  intro fuel rest _ hfuel
  have hlength := length_escaped s.toList
  rw [dumps, toList_quote] at hfuel ⊢
  cases fuel with
  | zero => cases hfuel
  | succ fuel =>
      simp only [List.length_cons, List.length_append] at hfuel
      rw [List.cons_append, List.append_assoc, scanValue,
        skipSpace_cons rfl]
      dsimp only
      rw [if_pos rfl]
      show (scanString _ (escaped s.toList ++ '"' :: rest)).map _ = _
      rw [scanString_escaped (by omega)]
      rfl

theorem reads_arr {xs : List Json} (hfloats : PrintedItems repr xs)
    (h : xs = [] ∨ ReadsItems repr xs) : Reads repr (.arr xs) := by
  intro fuel rest _ hfuel
  rw [toList_arr] at hfuel ⊢
  cases fuel with
  | zero => cases hfuel
  | succ fuel =>
      cases xs with
      | nil => rfl
      | cons x xs =>
          simp only [List.length_cons, List.length_append] at hfuel
          have hread := h.resolve_left (List.cons_ne_nil x xs)
          rw [List.cons_append, List.append_assoc, scanValue,
            skipSpace_cons rfl]
          dsimp only
          rw [if_neg (by decide), if_neg (by decide), if_pos rfl,
            expect_startsValue
              (startsValue_append (startsValue_items hfloats.1))]
          exact hread fuel rest [] (by omega)

theorem reads_obj {ms : List (String × Json)}
    (hkeys : (ms.map Prod.fst).Nodup) (h : ms = [] ∨ ReadsMembers repr ms) :
    Reads repr (.obj ms) := by
  intro fuel rest _ hfuel
  rw [toList_obj] at hfuel ⊢
  cases fuel with
  | zero => cases hfuel
  | succ fuel =>
      cases ms with
      | nil => rfl
      | cons m ms =>
          simp only [List.length_cons, List.length_append] at hfuel
          have hread := h.resolve_left (List.cons_ne_nil m ms) fuel rest []
            (by omega)
          rw [assignAll_unique hkeys] at hread
          rw [List.cons_append, List.append_assoc, scanValue,
            skipSpace_cons rfl]
          dsimp only
          rw [if_neg (by decide), if_pos rfl, expect_members]
          exact hread

/-- The first item, and those behind it if there are any. -/
theorem readsItems_cons {x : Json} {xs : List Json} (hx : Reads repr x)
    (h : xs = [] ∨ ReadsItems repr xs) : ReadsItems repr (x :: xs) := by
  intro fuel rest done hfuel
  cases fuel with
  | zero => cases hfuel
  | succ fuel =>
      cases xs with
      | nil =>
          rw [dumpsItems] at hfuel ⊢
          exact scanItems_last
            (hx fuel _ (ends_cons rfl) (Nat.le_of_lt_succ hfuel))
      | cons y xs =>
          have hread := h.resolve_left (List.cons_ne_nil y xs)
          rw [dumpsItems_cons] at hfuel ⊢
          simp only [List.length_cons, List.length_append] at hfuel
          have hx := hx fuel
            (',' :: ' ' :: ((dumpsItems (y :: xs)).toList ++ ']' :: rest))
            (ends_cons rfl) (by omega)
          rw [List.append_assoc, List.cons_append, List.cons_append,
            scanItems_next hx, hread fuel rest _ (by omega),
            List.append_assoc, List.singleton_append]

theorem readsMembers_cons {k : String} {ms : List (String × Json)}
    (hv : Reads repr v) (h : ms = [] ∨ ReadsMembers repr ms) :
    ReadsMembers repr ((k, v) :: ms) := by
  intro fuel rest d hfuel
  have hlength := length_escaped k.toList
  cases fuel with
  | zero => cases hfuel
  | succ fuel =>
      cases ms with
      | nil =>
          rw [dumpsMembers_one, memberText] at hfuel ⊢
          simp only [List.length_cons, List.length_append] at hfuel
          simp only [List.cons_append, List.append_assoc]
          exact scanMembers_last (by omega)
            (hv fuel _ (ends_cons rfl) (by omega))
      | cons m ms =>
          have hread := h.resolve_left (List.cons_ne_nil m ms)
          rw [dumpsMembers_cons, memberText] at hfuel ⊢
          simp only [List.length_cons, List.length_append] at hfuel
          simp only [List.cons_append, List.append_assoc]
          have hv := hv fuel
            (',' :: ' ' :: ((dumpsMembers (m :: ms)).toList
              ++ '\x7d' :: rest)) (ends_cons rfl) (by omega)
          rw [scanMembers_next (by omega) hv]
          exact hread fuel rest _ (by omega)

end Values

mutual

/-- What is printed is read back, value by value. -/
theorem reads_dumps {repr : String → String} : ∀ v : Json,
    UniqueKeys v → PrintedFloats repr v → Reads repr v
  | .null, _, _ => reads_scalar (scalarText_null repr)
  | .bool b, _, _ => reads_scalar (scalarText_bool repr b)
  | .int n, _, _ => reads_scalar (scalarText_int repr n)
  | .float _, _, hfloat => reads_scalar (scalarText_float hfloat)
  | .str s, _, _ => reads_str s
  | .arr xs, hkeys, hfloats =>
      reads_arr hfloats (readsItems_dumps xs hkeys hfloats)
  | .obj ms, hkeys, hfloats =>
      reads_obj hkeys.1 (readsMembers_dumps ms hkeys.2 hfloats)

theorem readsItems_dumps {repr : String → String} : ∀ xs : List Json,
    UniqueItems xs → PrintedItems repr xs → xs = [] ∨ ReadsItems repr xs
  | [], _, _ => Or.inl rfl
  | x :: xs, hkeys, hfloats =>
      Or.inr (readsItems_cons (reads_dumps x hkeys.1 hfloats.1)
        (readsItems_dumps xs hkeys.2 hfloats.2))

theorem readsMembers_dumps {repr : String → String} :
    ∀ ms : List (String × Json), UniqueMembers ms →
      PrintedMembers repr ms → ms = [] ∨ ReadsMembers repr ms
  | [], _, _ => Or.inl rfl
  | (_, v) :: ms, hkeys, hfloats =>
      Or.inr (readsMembers_cons (reads_dumps v hkeys.1 hfloats.1)
        (readsMembers_dumps ms hkeys.2 hfloats.2))

end

-- ====================================================================== texts

section Texts

variable {repr : String → String} {v : Json}

/-- A value as Python has them: a `dict` has each key once, and a float
the text that `repr` gives it. -/
def IsPython (repr : String → String) (v : Json) : Prop :=
  UniqueKeys v ∧ PrintedFloats repr v

instance (repr : String → String) (v : Json) : Decidable (IsPython repr v) :=
  inferInstanceAs (Decidable (UniqueKeys v ∧ PrintedFloats repr v))

/-- `json.loads(json.dumps(v)) == v`. -/
theorem loads_dumps (h : IsPython repr v) :
    loads repr (dumps v) = some v := by
  have h := reads_dumps v h.1 h.2 (dumps v).length [] ends_nil
    (Nat.le_of_eq String.length_toList)
  rw [List.append_nil] at h
  unfold loads
  rw [h]
  rfl

theorem scanItems_clear {fuel : Nat} {xs : List Json} {cs rest : List Char}
    (h : scanItems repr fuel xs cs = some (v, rest)) : EndsClear v rest := by
  induction fuel generalizing xs cs with
  | zero => cases h
  | succ fuel ih =>
      rw [scanItems] at h
      obtain ⟨⟨x, rest₁⟩, _, h⟩ := Option.bind_eq_some_iff.mp h
      dsimp only at h
      cases hcomma : expect ',' rest₁ with
      | some rest₂ =>
          rw [hcomma] at h
          exact ih h
      | none =>
          rw [hcomma] at h
          obtain ⟨rest₂, _, h⟩ := Option.bind_eq_some_iff.mp h
          injection h with h
          injection h with hv _
          exact Or.inr (Or.inr (Or.inl ⟨xs ++ [x], hv.symm⟩))

theorem scanMembers_clear {fuel : Nat} {d : List (String × Json)}
    {cs rest : List Char}
    (h : scanMembers repr fuel d cs = some (v, rest)) :
    EndsClear v rest := by
  induction fuel generalizing d cs with
  | zero => cases h
  | succ fuel ih =>
      rw [scanMembers] at h
      obtain ⟨rest₁, _, h⟩ := Option.bind_eq_some_iff.mp h
      obtain ⟨⟨k, rest₂⟩, _, h⟩ := Option.bind_eq_some_iff.mp h
      obtain ⟨rest₃, _, h⟩ := Option.bind_eq_some_iff.mp h
      obtain ⟨⟨w, rest₄⟩, _, h⟩ := Option.bind_eq_some_iff.mp h
      dsimp only at h
      cases hcomma : expect ',' rest₄ with
      | some rest₅ =>
          rw [hcomma] at h
          exact ih h
      | none =>
          rw [hcomma] at h
          obtain ⟨rest₅, _, h⟩ := Option.bind_eq_some_iff.mp h
          injection h with h
          injection h with hv _
          exact Or.inr (Or.inr (Or.inr ⟨setMember d k w, hv.symm⟩))

/-- Where a list or a dictionary ends is in no doubt. -/
theorem scanValue_clear {fuel : Nat} {c : Char} {cs rest : List Char}
    (hc : c = '[' ∨ c = '\x7b')
    (h : scanValue repr fuel (c :: cs) = some (v, rest)) :
    EndsClear v rest := by
  cases fuel with
  | zero => cases h
  | succ fuel =>
      rcases hc with rfl | rfl
      · rw [scanValue, skipSpace_cons rfl] at h
        dsimp only at h
        rw [if_neg (by decide), if_neg (by decide), if_pos rfl] at h
        cases hempty : expect ']' cs with
        | some rest' =>
            rw [hempty] at h
            injection h with h
            injection h with hv _
            exact Or.inr (Or.inr (Or.inl ⟨[], hv.symm⟩))
        | none =>
            rw [hempty] at h
            exact scanItems_clear h
      · rw [scanValue, skipSpace_cons rfl] at h
        dsimp only at h
        rw [if_neg (by decide), if_pos rfl] at h
        cases hempty : expect '\x7d' cs with
        | some rest' =>
            rw [hempty] at h
            injection h with h
            injection h with hv _
            exact Or.inr (Or.inr (Or.inr ⟨[], hv.symm⟩))
        | none =>
            rw [hempty] at h
            exact scanMembers_clear h

/-- A printed list or dictionary that was cut is no JSON. -/
theorem loads_cut {front back : List Char} (hpython : IsPython repr v)
    (hv : (∃ xs, v = .arr xs) ∨ ∃ ms, v = .obj ms)
    (hcut : front ++ back = (dumps v).toList) (hback : back ≠ []) :
    loads repr (String.ofList front) = none := by
  cases h : loads repr (String.ofList front) with
  | none => rfl
  | some w =>
      unfold loads at h
      obtain ⟨⟨w', rest⟩, hscan, _⟩ := Option.bind_eq_some_iff.mp h
      rw [String.toList_ofList, String.length_ofList] at hscan
      obtain ⟨c, cs, hc, htext⟩ : ∃ c cs, (c = '[' ∨ c = '\x7b')
          ∧ (dumps v).toList = c :: cs := by
        rcases hv with ⟨xs, rfl⟩ | ⟨ms, rfl⟩
        · exact ⟨'[', _, Or.inl rfl, toList_arr xs⟩
        · exact ⟨'\x7b', _, Or.inr rfl, toList_obj ms⟩
      have hclear : EndsClear w' rest := by
        cases front with
        | nil => cases hscan
        | cons d front =>
            rw [htext, List.cons_append] at hcut
            injection hcut with hd _
            exact scanValue_clear (hd ▸ hc) hscan
      -- the whole text is read to where its beginning was
      have hle : front.length ≤ (dumps v).toList.length := by
        rw [← hcut, List.length_append]
        exact Nat.le_add_right _ _
      have hwhole := (stays repr front.length).value
        (scanValue_append (t := back) hscan hclear) hle
      have hread := reads_dumps v hpython.1 hpython.2 _ [] ends_nil
        (Nat.le_refl (dumps v).toList.length)
      rw [List.append_nil, ← hcut] at hread
      rw [← hcut, hread] at hwhole
      injection hwhole with hwhole
      injection hwhole with _ hrest
      exact absurd (List.append_eq_nil_iff.mp hrest.symm).2 hback

end Texts

end LegalBot.Json
