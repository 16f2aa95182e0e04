/-
`json.dumps` with its default `ensure_ascii=True`, and what `json.loads`
makes of it.

# Escaped texts

`ascii` writes the characters of a text beyond `~` as escapes, those
beyond U+FFFF as two. A text that was read is read the same way with its
characters escaped (`loads_ascii`): such characters are in strings alone,
where an escape stands for a unit of UTF-16 and the units are joined
again (`joinUnits_split`).

What `dumpsAscii` prints is what `dumps` prints, escaped
(`toList_dumpsAscii`), so a printed value is read back
(`loads_dumpsAscii`).
-/
import LegalBot.Json.Printed

namespace LegalBot.Json

-- ================================================================= escapes

/-- `\uXXXX`. -/
def escapeUnit (n : Nat) : List Char :=
  ['\\', 'u', hexDigit (n / 0x1000), hexDigit (n / 0x100 % 16),
    hexDigit (n / 16 % 16), hexDigit (n % 16)]

/-- The units of a character in UTF-16. -/
def splitUnit (n : Nat) : List Nat :=
  if n < 0x10000 then [n]
  else [0xd800 + (n - 0x10000) / 0x400, 0xdc00 + (n - 0x10000) % 0x400]

/-- A character beyond `~`, as it is escaped. -/
def asciiChar (c : Char) : List Char :=
  if c.toNat < 0x7f then [c] else (splitUnit c.toNat).flatMap escapeUnit

/-- `py_encode_basestring_ascii`, for one character. -/
def escapeAscii (c : Char) : List Char :=
  if c.toNat < 0x7f then (escapeChar c).toList else asciiChar c

def quoteAscii (s : String) : String :=
  "\"" ++ String.ofList (s.toList.flatMap escapeAscii) ++ "\""

mutual

/-- `json.dumps(v)`. -/
def dumpsAscii : Json → String
  | .null => "null"
  | .bool true => "true"
  | .bool false => "false"
  | .int n => toString n
  | .float repr => repr
  | .str s => quoteAscii s
  | .arr xs => "[" ++ dumpsAsciiItems xs ++ "]"
  | .obj ms => "\x7b" ++ dumpsAsciiMembers ms ++ "\x7d"

/-- The items of a list, separated by `", "`. -/
def dumpsAsciiItems : List Json → String
  | [] => ""
  | [x] => dumpsAscii x
  | x :: rest => dumpsAscii x ++ ", " ++ dumpsAsciiItems rest

/-- The members of a dict, separated by `", "`. -/
def dumpsAsciiMembers : List (String × Json) → String
  | [] => ""
  | [(k, v)] => quoteAscii k ++ ": " ++ dumpsAscii v
  | (k, v) :: rest =>
      quoteAscii k ++ ": " ++ dumpsAscii v ++ ", " ++ dumpsAsciiMembers rest

end

example : dumpsAscii (.obj [("é", .str "a\n😀\"")])
    = "\x7b\"\\u00e9\": \"a\\n\\ud83d\\ude00\\\"\"\x7d" := by
  decide +kernel

/-- A text with its characters escaped. -/
def ascii (cs : List Char) : List Char := cs.flatMap asciiChar

-- =================================================================== units

section Units

variable {c : Char} {cs rest : List Char} {n fuel : Nat} {units : List Nat}

theorem scanUnit_escapeUnit (h : n < 0x10000) :
    scanUnit ((escapeUnit n).drop 2 ++ rest) = some (n, rest) := by
  have h₁ := hexValue_hexDigit (n / 0x1000) (by omega)
  have h₂ := hexValue_hexDigit (n / 0x100 % 16) (by omega)
  have h₃ := hexValue_hexDigit (n / 16 % 16) (by omega)
  have h₄ := hexValue_hexDigit (n % 16) (by omega)
  have hn : ((n / 0x1000 * 16 + n / 0x100 % 16) * 16 + n / 16 % 16) * 16
      + n % 16 = n := by omega
  show scanUnit (hexDigit (n / 0x1000) :: hexDigit (n / 0x100 % 16)
    :: hexDigit (n / 16 % 16) :: hexDigit (n % 16) :: rest) = _
  simp only [scanUnit, h₁, h₂, h₃, h₄, Option.bind_eq_bind,
    Option.bind_some, hn, Option.pure_def]

/-- An escape is read as its unit. -/
theorem scanChar_escapeUnit (h : n < 0x10000) :
    scanChar (escapeUnit n ++ rest) = some (some n, rest) := by
  show (scanUnit ((escapeUnit n).drop 2 ++ rest)).map _ = _
  rw [scanUnit_escapeUnit h]
  rfl

theorem splitUnit_lt (hn : n < 0x110000) :
    ∀ u ∈ splitUnit n, u < 0x10000 := by
  unfold splitUnit
  split
  · rename_i hlt
    simpa using hlt
  · intro u hu
    simp only [List.mem_cons, List.not_mem_nil, or_false] at hu
    omega

/-- The first unit of a character is no low surrogate, but for one that
is escaped alone. -/
theorem splitUnit_cons : ∃ u us, splitUnit n = u :: us
    ∧ (u = n ∨ (0xd800 ≤ u ∧ u < 0xdc00 ∨ 0x110000 ≤ n) ∧ 0x10000 ≤ n) := by
  unfold splitUnit
  split
  · exact ⟨n, [], rfl, Or.inl rfl⟩
  · refine ⟨_, _, rfl, Or.inr ⟨?_, by omega⟩⟩
    by_cases h : n < 0x110000
    · left
      omega
    · exact Or.inr (Nat.le_of_not_lt h)

theorem splitUnit_wide (h : ¬n < 0x10000) :
    splitUnit n = [0xd800 + (n - 0x10000) / 0x400,
      0xdc00 + (n - 0x10000) % 0x400] := if_neg h

/-- The halves of a character are joined again. -/
theorem joinUnits_wide (h : ¬n < 0x10000) (hmax : n < 0x110000) :
    joinUnits (splitUnit n ++ units) = charOf n :: joinUnits units := by
  have hn : 0x10000 + ((0xd800 + (n - 0x10000) / 0x400 - 0xd800) * 0x400
      + (0xdc00 + (n - 0x10000) % 0x400 - 0xdc00)) = n := by omega
  rw [splitUnit_wide h, List.cons_append, List.cons_append,
    List.nil_append, joinUnits, if_pos (by omega), hn]

/-- Units that are split join to the same characters. -/
theorem joinUnits_split (h : ∀ n ∈ units, n < 0x110000) :
    joinUnits (units.flatMap splitUnit) = joinUnits units := by
  induction units using joinUnits.induct with
  | case1 hi lo rest hpair ih =>
      have hhi : splitUnit hi = [hi] := if_pos (by omega)
      have hlo : splitUnit lo = [lo] := if_pos (by omega)
      have hrest := ih fun n hn =>
        h n (List.mem_cons_of_mem _ (List.mem_cons_of_mem _ hn))
      rw [List.flatMap_cons, List.flatMap_cons, hhi, hlo]
      show joinUnits (hi :: lo :: rest.flatMap splitUnit) = _
      rw [joinUnits, joinUnits, if_pos hpair, if_pos hpair, hrest]
  | case2 hi lo rest hpair ih =>
      have hrest := ih fun n hn => h n (List.mem_cons_of_mem _ hn)
      obtain ⟨u, us, hu, hfirst⟩ := @splitUnit_cons lo
      have hlo := h lo (List.mem_cons_of_mem _ List.mem_cons_self)
      rw [List.flatMap_cons, hu, List.cons_append] at hrest
      rw [List.flatMap_cons, List.flatMap_cons, hu, List.cons_append]
      rw [joinUnits, if_neg hpair, ← hrest]
      by_cases hhi : hi < 0x10000
      · rw [show splitUnit hi = [hi] from if_pos hhi, List.singleton_append,
          joinUnits, if_neg (by omega)]
      · exact joinUnits_wide hhi (h hi List.mem_cons_self)
  | case3 n =>
      rw [List.flatMap_singleton]
      by_cases hn : n < 0x10000
      · rw [show splitUnit n = [n] from if_pos hn]
      · have hjoin := @joinUnits_wide n [] hn (h n List.mem_cons_self)
        rw [List.append_nil] at hjoin
        exact hjoin
  | case4 => rfl

end Units

-- ============================================================== characters

section Characters

variable {c d : Char} {cs rest pre : List Char} {n : Nat}

theorem ascii_plain (h : c.toNat < 0x7f) :
    ascii (c :: cs) = c :: ascii cs := by
  show asciiChar c ++ ascii cs = _
  rw [show asciiChar c = [c] from if_pos h]
  rfl

theorem ascii_wide (h : ¬c.toNat < 0x7f) :
    ascii (c :: cs)
      = (splitUnit c.toNat).flatMap escapeUnit ++ ascii cs := by
  show asciiChar c ++ ascii cs = _
  rw [show asciiChar c = _ from if_neg h]

/-- An escaped character starts with a backslash. -/
theorem ascii_wide_head (h : ¬c.toNat < 0x7f) :
    ∃ r, ascii (c :: cs) = '\\' :: r := by
  obtain ⟨u, us, hu, -⟩ := @splitUnit_cons c.toNat
  rw [ascii_wide h, hu]
  exact ⟨_, rfl⟩

theorem ascii_append : ascii (pre ++ rest) = ascii pre ++ ascii rest :=
  List.flatMap_append

/-- Plain characters stay. -/
theorem ascii_id (h : ∀ c ∈ cs, c.toNat < 0x7f) : ascii cs = cs := by
  induction cs with
  | nil => rfl
  | cons c cs ih =>
      rw [ascii_plain (h c List.mem_cons_self),
        ih fun d hd => h d (List.mem_cons_of_mem _ hd)]

theorem length_ascii (cs : List Char) :
    cs.length ≤ (ascii cs).length := by
  induction cs with
  | nil => exact Nat.le_refl 0
  | cons c cs ih =>
      by_cases hc : c.toNat < 0x7f
      · rw [ascii_plain hc]
        exact Nat.succ_le_succ ih
      · obtain ⟨u, us, hu, -⟩ := @splitUnit_cons c.toNat
        rw [ascii_wide hc, hu, List.flatMap_cons, List.length_append,
          List.length_append, List.length_cons,
          show (escapeUnit u).length = 6 from rfl]
        omega

/-- What is left of a text has no more escapes than the text. -/
theorem ascii_suffix (h : rest <:+ cs) :
    (ascii rest).length + cs.length
      ≤ (ascii cs).length + rest.length := by
  obtain ⟨pre, rfl⟩ := h
  have hpre := length_ascii pre
  rw [ascii_append, List.length_append, List.length_append]
  omega

theorem ne_of_wide (h : ¬c.toNat < 0x7f) (hd : d.toNat < 0x7f) : c ≠ d :=
  fun e => h (e ▸ hd)

theorem plain_of_isDigit (h : c.isDigit = true) : c.toNat < 0x7f := by
  unfold Char.isDigit at h
  simp only [Bool.and_eq_true, decide_eq_true_eq] at h
  have hle : c.toNat ≤ 57 := UInt32.le_iff_toNat_le.mp h.2
  omega

theorem plain_of_isNumberChar (h : isNumberChar c = true) :
    c.toNat < 0x7f := by
  unfold isNumberChar at h
  simp only [Bool.or_eq_true, decide_eq_true_eq] at h
  rcases h with ((((h | rfl) | rfl) | rfl) | rfl) | rfl
  · exact plain_of_isDigit h
  all_goals decide

theorem plain_of_isJsonSpace (h : isJsonSpace c = true) :
    c.toNat < 0x7f := by
  unfold isJsonSpace at h
  simp only [Bool.or_eq_true, decide_eq_true_eq] at h
  rcases h with ((rfl | rfl) | rfl) | rfl
  all_goals decide

theorem plain_of_hexValue (h : hexValue c = some n) :
    c.toNat < 0x7f ∧ n < 16 := by
  unfold hexValue at h
  split at h
  · rename_i hdigit
    unfold Char.isDigit at hdigit
    simp only [Bool.and_eq_true, decide_eq_true_eq] at hdigit
    have hle : c.toNat ≤ 57 := UInt32.le_iff_toNat_le.mp hdigit.2
    cases h
    omega
  · split at h
    · cases h
      omega
    · split at h
      · cases h
        omega
      · cases h

theorem plain_of_unescape (h : unescape c = some n) :
    c.toNat < 0x7f ∧ n < 0x7f := by
  have hplain : c.toNat < 0x7f := by
    by_contra hc
    unfold unescape at h
    rw [if_neg (by
        rintro (e | e | e)
        all_goals exact ne_of_wide hc (by decide) e),
      if_neg (ne_of_wide hc (by decide)),
      if_neg (ne_of_wide hc (by decide)),
      if_neg (ne_of_wide hc (by decide)),
      if_neg (ne_of_wide hc (by decide)),
      if_neg (ne_of_wide hc (by decide))] at h
    cases h
  refine ⟨hplain, ?_⟩
  unfold unescape at h
  split at h
  · cases h
    exact hplain
  · repeat
      split at h
      · cases h
        decide
    cases h

/-- Characters of a plain kind are found as before. -/
theorem while_ascii {p : Char → Bool}
    (hp : ∀ c, p c = true → c.toNat < 0x7f) (hslash : p '\\' = false) :
    (ascii cs).takeWhile p = cs.takeWhile p
      ∧ (ascii cs).dropWhile p = ascii (cs.dropWhile p) := by
  induction cs with
  | nil => exact ⟨rfl, rfl⟩
  | cons c cs ih =>
      by_cases hc : p c = true
      · rw [ascii_plain (hp c hc), List.takeWhile_cons_of_pos hc,
          List.takeWhile_cons_of_pos hc, List.dropWhile_cons_of_pos hc,
          List.dropWhile_cons_of_pos hc, ih.1]
        exact ⟨rfl, ih.2⟩
      · rw [List.takeWhile_cons_of_neg hc, List.dropWhile_cons_of_neg hc]
        obtain ⟨d, r, hd, hr⟩ : ∃ d r, ¬p d = true
            ∧ ascii (c :: cs) = d :: r := by
          by_cases hplain : c.toNat < 0x7f
          · exact ⟨c, _, hc, ascii_plain hplain⟩
          · obtain ⟨r, hr⟩ := @ascii_wide_head c cs hplain
            exact ⟨_, r, by rw [hslash]; exact Bool.false_ne_true, hr⟩
        rw [hr, List.takeWhile_cons_of_neg hd,
          List.dropWhile_cons_of_neg hd]
        exact ⟨rfl, rfl⟩

theorem skipSpace_ascii : skipSpace (ascii cs) = ascii (skipSpace cs) :=
  (while_ascii (fun _ => plain_of_isJsonSpace) rfl).2

theorem skipSpace_suffix : skipSpace cs <:+ cs := List.dropWhile_suffix _

theorem expect_ascii (hd : d.toNat < 0x7f) (hslash : d ≠ '\\') :
    expect d (ascii cs) = (expect d cs).map ascii := by
  unfold expect
  rw [skipSpace_ascii]
  cases skipSpace cs with
  | nil => rfl
  | cons c rest =>
      by_cases hc : c.toNat < 0x7f
      · rw [ascii_plain hc]
        dsimp only
        split <;> rfl
      · obtain ⟨r, hr⟩ := @ascii_wide_head c rest hc
        rw [hr]
        dsimp only
        rw [if_neg hslash.symm, if_neg (ne_of_wide hc hd)]
        rfl

theorem expect_suffix (h : expect d cs = some rest) : rest <:+ cs :=
  (List.suffix_cons d rest).trans (expect_some.mp h ▸ skipSpace_suffix)

end Characters

-- ================================================================= strings

section Strings

variable {c : Char} {cs rest : List Char} {n fuel more : Nat}
  {u : Option Nat} {units : List Nat} {s : String}

theorem scanUnit_ascii (h : scanUnit cs = some (n, rest)) :
    scanUnit (ascii cs) = some (n, ascii rest) ∧ rest <:+ cs
      ∧ n < 0x10000 := by
  unfold scanUnit at h
  split at h
  · rename_i a b c d rest'
    simp only [Option.bind_eq_bind, Option.bind_eq_some_iff,
      Option.pure_def, Option.some.injEq, Prod.mk.injEq] at h
    obtain ⟨na, ha, nb, hb, nc, hc, nd, hd, hn, rfl⟩ := h
    obtain ⟨ha', hna⟩ := plain_of_hexValue ha
    obtain ⟨hb', hnb⟩ := plain_of_hexValue hb
    obtain ⟨hc', hnc⟩ := plain_of_hexValue hc
    obtain ⟨hd', hnd⟩ := plain_of_hexValue hd
    rw [ascii_plain ha', ascii_plain hb', ascii_plain hc', ascii_plain hd']
    refine ⟨?_, ⟨[a, b, c, d], rfl⟩, by omega⟩
    simp only [scanUnit, ha, hb, hc, hd, Option.bind_eq_bind,
      Option.bind_some, hn, Option.pure_def]
  · cases h

/-- An escape is read the same way: it has no wide character. -/
theorem scanEscape_ascii (h : scanChar ('\\' :: cs) = some (u, rest)) :
    scanChar (ascii ('\\' :: cs)) = some (u, ascii rest)
      ∧ rest <:+ '\\' :: cs ∧ ∀ n ∈ u, n < 0x10000 := by
  rw [ascii_plain (by decide)]
  cases cs with
  | nil => cases h
  | cons e cs =>
      change (if e = 'u' then (scanUnit cs).map fun unit =>
          (some unit.1, unit.2)
        else (unescape e).map fun n => (some n, cs)) = some (u, rest) at h
      by_cases hu : e = 'u'
      · rw [if_pos hu] at h
        obtain ⟨⟨n, rest'⟩, hunit, heq⟩ := Option.map_eq_some_iff.mp h
        obtain ⟨hunit', hsuffix, hlt⟩ := scanUnit_ascii hunit
        cases heq
        rw [hu, ascii_plain (by decide)]
        refine ⟨?_, hsuffix.trans ⟨['\\', 'u'], rfl⟩, fun m hm => ?_⟩
        · show (scanUnit (ascii cs)).map _ = _
          rw [hunit']
          rfl
        · cases hm
          exact hlt
      · rw [if_neg hu] at h
        obtain ⟨n, hn, heq⟩ := Option.map_eq_some_iff.mp h
        obtain ⟨he, hlt⟩ := plain_of_unescape hn
        cases heq
        rw [ascii_plain he]
        refine ⟨?_, ⟨['\\', e], rfl⟩, fun m hm => ?_⟩
        · show (if e = 'u' then _ else
            (unescape e).map fun n => (some n, ascii rest)) = _
          rw [if_neg hu, hn]
          rfl
        · cases hm
          exact hlt.trans (by decide)

theorem scanChar_ascii (hc : c.toNat < 0x7f)
    (h : scanChar (c :: cs) = some (u, rest)) :
    scanChar (ascii (c :: cs)) = some (u, ascii rest)
      ∧ rest <:+ c :: cs ∧ ∀ n ∈ u, n < 0x10000 := by
  by_cases hslash : c = '\\'
  · subst hslash
    exact scanEscape_ascii h
  rw [ascii_plain hc]
  unfold scanChar at h ⊢
  dsimp only at h ⊢
  by_cases hquote : c = '"'
  · rw [if_pos hquote] at h ⊢
    cases h
    exact ⟨rfl, List.suffix_cons c cs, nofun⟩
  rw [if_neg hquote, if_neg hslash] at h ⊢
  by_cases hcontrol : c.toNat < 0x20
  · rw [if_pos hcontrol] at h
    cases h
  · rw [if_neg hcontrol] at h ⊢
    cases h
    refine ⟨rfl, List.suffix_cons c cs, fun m hm => ?_⟩
    cases hm
    exact hc.trans (by decide)

/-- Escapes are read one by one. -/
theorem scanUnits_escapes (h : ∀ u ∈ units, u < 0x10000) :
    scanUnits (units.length + more) (units.flatMap escapeUnit ++ rest)
      = (scanUnits more rest).map fun found =>
        (units ++ found.1, found.2) := by
  induction units with
  | nil =>
      rw [List.length_nil, Nat.zero_add]
      simp
  | cons u us ih =>
      have hrest := ih fun v hv => h v (List.mem_cons_of_mem _ hv)
      rw [List.length_cons, Nat.succ_add, scanUnits, List.flatMap_cons,
        List.append_assoc, scanChar_escapeUnit (h u List.mem_cons_self)]
      dsimp only
      rw [hrest, Option.map_map]
      rfl

theorem length_escapes :
    (units.flatMap escapeUnit).length = 6 * units.length := by
  induction units with
  | nil => rfl
  | cons u us ih =>
      rw [List.flatMap_cons, List.length_append, ih, List.length_cons,
        show (escapeUnit u).length = 6 from rfl]
      omega

/-- The calls that are left are enough for what is left of the text. -/
theorem enough (hsuffix : rest <:+ cs)
    (h : fuel + 1 + (ascii cs).length ≤ more + 1 + cs.length) :
    fuel + (ascii rest).length ≤ more + rest.length := by
  have hrest := ascii_suffix hsuffix
  omega

theorem toNat_lt (c : Char) : c.toNat < 0x110000 := by
  have hvalid : c.toNat < 0xd800
    ∨ 0xdfff < c.toNat ∧ c.toNat < 0x110000 := c.valid
  omega

/-- A wide character is a unit of its own, and escaped it is as many as it
has escapes. -/
theorem scanUnits_wide (hc : ¬c.toNat < 0x7f) :
    scanUnits (fuel + 1) (c :: cs)
        = (scanUnits fuel cs).map (fun found =>
          (c.toNat :: found.1, found.2))
      ∧ scanUnits ((splitUnit c.toNat).length + more) (ascii (c :: cs))
        = (scanUnits more (ascii cs)).map fun found =>
          (splitUnit c.toNat ++ found.1, found.2) := by
  have hplain : scanChar (c :: cs) = some (some c.toNat, cs) :=
    scanChar_plain (by omega) (by omega) (by omega)
  constructor
  · rw [scanUnits, hplain]
  · rw [ascii_wide hc, scanUnits_escapes (splitUnit_lt (toNat_lt c))]

/-- One step at a character that is not escaped. -/
theorem scanUnits_plain (hc : c.toNat < 0x7f)
    (h : scanUnits (fuel + 1) (c :: cs) = some (units, rest)) :
    (units = [] ∧ ∀ more, scanUnits (more + 1) (ascii (c :: cs))
        = some ([], ascii rest)) ∧ rest <:+ c :: cs
      ∨ ∃ n us rest', n < 0x10000 ∧ units = n :: us
        ∧ rest' <:+ c :: cs ∧ scanUnits fuel rest' = some (us, rest)
        ∧ ∀ more, scanUnits (more + 1) (ascii (c :: cs))
          = (scanUnits more (ascii rest')).map fun found =>
            (n :: found.1, found.2) := by
  rw [scanUnits] at h
  cases hchar : scanChar (c :: cs) with
  | none =>
      rw [hchar] at h
      cases h
  | some next =>
      obtain ⟨u, rest'⟩ := next
      obtain ⟨hascii, hsuffix, hlt⟩ := scanChar_ascii hc hchar
      rw [hchar] at h
      cases u with
      | none =>
          cases h
          refine Or.inl ⟨⟨rfl, fun more => ?_⟩, hsuffix⟩
          rw [scanUnits, hascii]
      | some n =>
          obtain ⟨⟨us, rest₂⟩, hunits, heq⟩ := Option.map_eq_some_iff.mp h
          cases heq
          refine Or.inr ⟨n, us, rest', hlt n rfl, rfl, hsuffix, hunits,
            fun more => ?_⟩
          rw [scanUnits, hascii]

theorem scanUnits_ascii (h : scanUnits fuel cs = some (units, rest))
    (hle : fuel + (ascii cs).length ≤ more + cs.length) :
    scanUnits more (ascii cs) = some (units.flatMap splitUnit, ascii rest)
      ∧ rest <:+ cs ∧ ∀ n ∈ units, n < 0x110000 := by
  induction fuel generalizing cs more units with
  | zero => cases h
  | succ fuel ih =>
      cases cs with
      | nil => cases h
      | cons c cs =>
          have hlength := length_ascii (c :: cs)
          by_cases hc : c.toNat < 0x7f
          · obtain ⟨m, rfl⟩ : ∃ m, more = m + 1 :=
              Nat.exists_eq_add_one.mpr (by omega)
            rcases scanUnits_plain hc h with ⟨⟨rfl, hend⟩, hsuffix⟩
              | ⟨n, us, rest', hn, rfl, hsuffix, hunits, hnext⟩
            · exact ⟨hend m, hsuffix, by simp⟩
            · obtain ⟨hus, hsuffix', hmax⟩ := ih hunits (enough hsuffix hle)
              rw [hnext, hus, List.flatMap_cons,
                show splitUnit n = [n] from if_pos hn]
              refine ⟨rfl, hsuffix'.trans hsuffix, fun v hv => ?_⟩
              rcases List.mem_cons.mp hv with rfl | hv
              · omega
              · exact hmax v hv
          · -- as many calls as the character has escapes
            rw [(@scanUnits_wide c cs fuel 0 hc).1] at h
            obtain ⟨⟨us, rest'⟩, hunits, heq⟩ := Option.map_eq_some_iff.mp h
            cases heq
            have hlength' := length_ascii cs
            rw [ascii_wide hc, List.length_append, length_escapes,
              List.length_cons] at hle
            obtain ⟨m, rfl⟩ : ∃ m, more = (splitUnit c.toNat).length + m :=
              Nat.exists_eq_add_of_le (by omega)
            obtain ⟨hus, hsuffix, hmax⟩ := @ih cs m us hunits (by omega)
            rw [(@scanUnits_wide c cs 0 m hc).2, hus]
            refine ⟨rfl, hsuffix.trans (List.suffix_cons c cs),
              fun v hv => ?_⟩
            rcases List.mem_cons.mp hv with rfl | hv
            · exact toNat_lt c
            · exact hmax v hv

theorem scanString_ascii (h : scanString fuel cs = some (s, rest))
    (hle : fuel + (ascii cs).length ≤ more + cs.length) :
    scanString more (ascii cs) = some (s, ascii rest) ∧ rest <:+ cs := by
  obtain ⟨⟨units, rest'⟩, hunits, heq⟩ := Option.map_eq_some_iff.mp h
  obtain ⟨hus, hsuffix, hmax⟩ := scanUnits_ascii hunits hle
  cases heq
  refine ⟨?_, hsuffix⟩
  unfold scanString
  rw [hus, Option.map_some, joinUnits_split hmax]

end Strings

-- ================================================================== values

section Values

variable {repr : String → String} {cs rest : List Char} {v : Json}
  {c : Char} {fuel more : Nat}

theorem scanConstant_ascii (h : scanConstant cs = some (v, rest)) :
    scanConstant (ascii cs) = some (v, ascii rest) ∧ rest <:+ cs := by
  unfold scanConstant at h
  split at h
  · cases h
    exact ⟨rfl, ⟨['n', 'u', 'l', 'l'], rfl⟩⟩
  · cases h
    exact ⟨rfl, ⟨['t', 'r', 'u', 'e'], rfl⟩⟩
  · cases h
    exact ⟨rfl, ⟨['f', 'a', 'l', 's', 'e'], rfl⟩⟩
  · cases h
    exact ⟨rfl, ⟨['N', 'a', 'N'], rfl⟩⟩
  · cases h
    exact ⟨rfl, ⟨"Infinity".toList, rfl⟩⟩
  · cases h
    exact ⟨rfl, ⟨"-Infinity".toList, rfl⟩⟩
  · cases h

theorem scanScalar_ascii (h : scanScalar repr cs = some (v, rest)) :
    scanScalar repr (ascii cs) = some (v, ascii rest) ∧ rest <:+ cs := by
  unfold scanScalar at h ⊢
  cases hconstant : scanConstant cs with
  | some found =>
      rw [hconstant] at h
      cases h
      obtain ⟨hascii, hsuffix⟩ := scanConstant_ascii hconstant
      rw [hascii]
      exact ⟨rfl, hsuffix⟩
  | none =>
      rw [hconstant] at h
      obtain ⟨w, hnumber, heq⟩ := Option.map_eq_some_iff.mp h
      cases heq
      obtain ⟨htake, hdrop⟩ :=
        @while_ascii cs _ (fun _ => plain_of_isNumberChar) rfl
      obtain ⟨d, r, hd, htoken⟩ := numberOf_head hnumber
      have hall := List.takeWhile_append_dropWhile
        (p := isNumberChar) (l := ascii cs)
      rw [htake] at hall
      have hnone : scanConstant (ascii cs) = none := by
        rw [← hall]
        rcases htoken with htoken | htoken
        · rw [htoken]
          exact scanConstant_number hd (Or.inl rfl)
        · rw [htoken]
          exact scanConstant_number hd (Or.inr rfl)
      rw [hnone]
      dsimp only
      rw [htake, hdrop, hnumber]
      exact ⟨rfl, List.dropWhile_suffix _⟩

/-- A text is read the same way with its characters escaped. -/
structure Escapes (repr : String → String) (fuel : Nat) : Prop where
  value : ∀ {more cs v rest}, scanValue repr fuel cs = some (v, rest) →
    fuel + (ascii cs).length ≤ more + cs.length →
    scanValue repr more (ascii cs) = some (v, ascii rest) ∧ rest <:+ cs
  members : ∀ {more d cs v rest},
    scanMembers repr fuel d cs = some (v, rest) →
    fuel + (ascii cs).length ≤ more + cs.length →
    scanMembers repr more d (ascii cs) = some (v, ascii rest) ∧ rest <:+ cs
  items : ∀ {more xs cs v rest},
    scanItems repr fuel xs cs = some (v, rest) →
    fuel + (ascii cs).length ≤ more + cs.length →
    scanItems repr more xs (ascii cs) = some (v, ascii rest) ∧ rest <:+ cs

/-- A text that is read has no wide character in front. -/
theorem plain_of_scanScalar
    (h : scanScalar repr (c :: cs) = some (v, rest)) :
    c.toNat < 0x7f := by
  by_contra hc
  obtain ⟨r, hr⟩ := @ascii_wide_head c cs hc
  obtain ⟨hascii, -⟩ := scanScalar_ascii h
  rw [hr] at hascii
  cases hascii

theorem scanValue_ascii (ih : Escapes repr fuel)
    (h : scanValue repr (fuel + 1) cs = some (v, rest))
    (hle : fuel + 1 + (ascii cs).length ≤ more + 1 + cs.length) :
    scanValue repr (more + 1) (ascii cs) = some (v, ascii rest)
      ∧ rest <:+ cs := by
  cases hcs : skipSpace cs with
  | nil => exact absurd hcs (skipSpace_of_scanValue h)
  | cons c rest₁ =>
      have hsuffix₁ : rest₁ <:+ cs :=
        (List.suffix_cons c rest₁).trans (hcs ▸ skipSpace_suffix)
      have hle₁ := enough hsuffix₁ hle
      rw [scanValue] at h ⊢
      rw [hcs] at h
      rw [skipSpace_ascii, hcs]
      dsimp only at h
      by_cases hquote : c = '"'
      · rw [if_pos hquote] at h
        obtain ⟨⟨s, rest₂⟩, hs, heq⟩ := Option.map_eq_some_iff.mp h
        cases heq
        obtain ⟨hs', hsuffix⟩ := scanString_ascii hs hle₁
        rw [hquote, ascii_plain (by decide)]
        dsimp only
        rw [if_pos rfl, hs']
        exact ⟨rfl, hsuffix.trans hsuffix₁⟩
      rw [if_neg hquote] at h
      by_cases hobj : c = '\x7b'
      · rw [if_pos hobj] at h
        rw [hobj, ascii_plain (by decide)]
        dsimp only
        rw [if_neg (by decide), if_pos rfl,
          expect_ascii (by decide) (by decide)]
        cases hempty : expect '\x7d' rest₁ with
        | some rest₂ =>
            rw [hempty] at h
            cases h
            exact ⟨rfl, (expect_suffix hempty).trans hsuffix₁⟩
        | none =>
            rw [hempty] at h
            obtain ⟨hmembers, hsuffix⟩ := ih.members h hle₁
            exact ⟨hmembers, hsuffix.trans hsuffix₁⟩
      rw [if_neg hobj] at h
      by_cases harr : c = '['
      · rw [if_pos harr] at h
        rw [harr, ascii_plain (by decide)]
        dsimp only
        rw [if_neg (by decide), if_neg (by decide), if_pos rfl,
          expect_ascii (by decide) (by decide)]
        cases hempty : expect ']' rest₁ with
        | some rest₂ =>
            rw [hempty] at h
            cases h
            exact ⟨rfl, (expect_suffix hempty).trans hsuffix₁⟩
        | none =>
            rw [hempty] at h
            obtain ⟨hitems, hsuffix⟩ := ih.items h hle₁
            exact ⟨hitems, hsuffix.trans hsuffix₁⟩
      · rw [if_neg harr] at h
        obtain ⟨hscalar, hsuffix⟩ := scanScalar_ascii h
        rw [ascii_plain (plain_of_scanScalar h)] at hscalar ⊢
        dsimp only
        rw [if_neg hquote, if_neg hobj, if_neg harr]
        exact ⟨hscalar, hsuffix.trans (hcs ▸ skipSpace_suffix)⟩

theorem scanMembers_ascii (ih : Escapes repr fuel)
    {d : List (String × Json)}
    (h : scanMembers repr (fuel + 1) d cs = some (v, rest))
    (hle : fuel + 1 + (ascii cs).length ≤ more + 1 + cs.length) :
    scanMembers repr (more + 1) d (ascii cs) = some (v, ascii rest)
      ∧ rest <:+ cs := by
  rw [scanMembers] at h ⊢
  obtain ⟨rest₁, hquote, h⟩ := Option.bind_eq_some_iff.mp h
  obtain ⟨⟨k, rest₂⟩, hkey, h⟩ := Option.bind_eq_some_iff.mp h
  obtain ⟨rest₃, hcolon, h⟩ := Option.bind_eq_some_iff.mp h
  obtain ⟨⟨w, rest₄⟩, hvalue, h⟩ := Option.bind_eq_some_iff.mp h
  dsimp only at hcolon h
  have hsuffix₁ := expect_suffix hquote
  obtain ⟨hkey', hsuffix⟩ := scanString_ascii hkey (enough hsuffix₁ hle)
  have hsuffix₂ := hsuffix.trans hsuffix₁
  have hsuffix₃ := (expect_suffix hcolon).trans hsuffix₂
  obtain ⟨hvalue', hsuffix⟩ := ih.value hvalue (enough hsuffix₃ hle)
  have hsuffix₄ := hsuffix.trans hsuffix₃
  rw [expect_ascii (by decide) (by decide), hquote]
  simp only [Option.map_some, Option.bind_eq_bind, Option.bind_some, hkey']
  rw [expect_ascii (by decide) (by decide), hcolon]
  simp only [Option.map_some, Option.bind_some, hvalue']
  rw [expect_ascii (by decide) (by decide),
    expect_ascii (by decide) (by decide)]
  cases hcomma : expect ',' rest₄ with
  | some rest₅ =>
      rw [hcomma] at h
      have hsuffix₅ := (expect_suffix hcomma).trans hsuffix₄
      obtain ⟨hmembers, hsuffix⟩ := ih.members h (enough hsuffix₅ hle)
      exact ⟨hmembers, hsuffix.trans hsuffix₅⟩
  | none =>
      rw [hcomma] at h
      obtain ⟨rest₅, hclose, h⟩ := Option.bind_eq_some_iff.mp h
      cases h
      rw [hclose]
      exact ⟨rfl, (expect_suffix hclose).trans hsuffix₄⟩

theorem scanItems_ascii (ih : Escapes repr fuel) {xs : List Json}
    (h : scanItems repr (fuel + 1) xs cs = some (v, rest))
    (hle : fuel + 1 + (ascii cs).length ≤ more + 1 + cs.length) :
    scanItems repr (more + 1) xs (ascii cs) = some (v, ascii rest)
      ∧ rest <:+ cs := by
  rw [scanItems] at h ⊢
  obtain ⟨⟨x, rest₁⟩, hvalue, h⟩ := Option.bind_eq_some_iff.mp h
  dsimp only at h
  obtain ⟨hvalue', hsuffix₁⟩ := ih.value hvalue
    (enough (List.suffix_refl cs) hle)
  simp only [hvalue', Option.bind_eq_bind, Option.bind_some]
  rw [expect_ascii (by decide) (by decide),
    expect_ascii (by decide) (by decide)]
  cases hcomma : expect ',' rest₁ with
  | some rest₂ =>
      rw [hcomma] at h
      have hsuffix₂ := (expect_suffix hcomma).trans hsuffix₁
      obtain ⟨hitems, hsuffix⟩ := ih.items h (enough hsuffix₂ hle)
      exact ⟨hitems, hsuffix.trans hsuffix₂⟩
  | none =>
      rw [hcomma] at h
      obtain ⟨rest₂, hclose, h⟩ := Option.bind_eq_some_iff.mp h
      cases h
      rw [hclose]
      exact ⟨rfl, (expect_suffix hclose).trans hsuffix₁⟩

theorem escapes (repr : String → String) (fuel : Nat) :
    Escapes repr fuel := by
  induction fuel with
  | zero =>
      constructor
      · intro _ _ _ _ h
        cases h
      · intro _ _ _ _ _ h
        cases h
      · intro _ _ _ _ _ h
        cases h
  | succ fuel ih =>
      have hmore : ∀ {more : Nat} {cs : List Char},
          fuel + 1 + (ascii cs).length ≤ more + cs.length →
          ∃ m, more = m + 1 := fun {more} {cs} hle =>
        Nat.exists_eq_add_one.mpr (by
          have hlength := length_ascii cs
          omega)
      constructor
      · intro _ _ _ _ h hle
        obtain ⟨m, rfl⟩ := hmore hle
        exact scanValue_ascii ih h hle
      · intro _ _ _ _ _ h hle
        obtain ⟨m, rfl⟩ := hmore hle
        exact scanMembers_ascii ih h hle
      · intro _ _ _ _ _ h hle
        obtain ⟨m, rfl⟩ := hmore hle
        exact scanItems_ascii ih h hle

/-- What is read of a text is read of it with its characters escaped. -/
theorem loads_ascii {s : String} (h : loads repr s = some v) :
    loads repr (String.ofList (ascii s.toList)) = some v := by
  obtain ⟨⟨w, rest⟩, hvalue, h⟩ := Option.bind_eq_some_iff.mp h
  dsimp only at h
  split_ifs at h with hrest
  cases h
  obtain ⟨hascii, -⟩ := @Escapes.value _ _ (escapes repr s.length)
    (ascii s.toList).length _ _ _ hvalue (by
      rw [String.length_toList]
      omega)
  unfold loads
  rw [String.toList_ofList, String.length_ofList, hascii]
  simp only [Option.bind_eq_bind, Option.bind_some]
  rw [skipSpace_ascii, hrest]
  rfl

end Values

-- ================================================================= visible

/-- From the space to `~`. -/
def Visible (cs : List Char) : Prop :=
  ∀ c ∈ cs, 0x20 ≤ c.toNat ∧ c.toNat < 0x7f

instance (cs : List Char) : Decidable (Visible cs) :=
  List.decidableBAll (fun c : Char => 0x20 ≤ c.toNat ∧ c.toNat < 0x7f) cs

section Visible

variable {c : Char} {cs cs' : List Char} {n : Nat}

theorem Visible.append (h : Visible cs) (h' : Visible cs') :
    Visible (cs ++ cs') := fun c hc =>
  (List.mem_append.mp hc).elim (h c) (h' c)

theorem visible_hexDigit : ∀ n < 16, 0x20 ≤ (hexDigit n).toNat
    ∧ (hexDigit n).toNat < 0x7f := by
  decide

theorem visible_escapeUnit (h : n < 0x10000) : Visible (escapeUnit n) := by
  intro c hc
  simp only [escapeUnit, List.mem_cons, List.not_mem_nil, or_false] at hc
  rcases hc with rfl | rfl | rfl | rfl | rfl | rfl
  · decide
  · decide
  all_goals exact visible_hexDigit _ (by omega)

theorem visible_escapeChar (hc : c.toNat < 0x7f) :
    Visible (escapeChar c).toList := by
  unfold escapeChar
  split
  case h_8 =>
    by_cases hcontrol : c.toNat < 0x20
    · have h₁ := visible_hexDigit (c.toNat / 16) (by omega)
      have h₂ := visible_hexDigit (c.toNat % 16) (by omega)
      rw [if_pos hcontrol, String.toList_ofList]
      simp [Visible, h₁, h₂]
    · rw [if_neg hcontrol, String.toList_singleton]
      simpa [Visible] using ⟨Nat.le_of_not_lt hcontrol, hc⟩
  all_goals decide

theorem visible_escapeAscii : Visible (escapeAscii c) := by
  unfold escapeAscii
  by_cases hc : c.toNat < 0x7f
  · rw [if_pos hc]
    exact visible_escapeChar hc
  · rw [if_neg hc, show asciiChar c = _ from if_neg hc]
    intro d hd
    obtain ⟨u, hu, hd⟩ := List.mem_flatMap.mp hd
    exact visible_escapeUnit (splitUnit_lt (toNat_lt c) u hu) d hd

theorem visible_quoteAscii (s : String) :
    Visible (quoteAscii s).toList := by
  have hquote : Visible ['"'] := by decide
  unfold quoteAscii
  simp only [String.toList_append, String.toList_ofList]
  refine (hquote.append fun c hc => ?_).append hquote
  obtain ⟨d, -, hc⟩ := List.mem_flatMap.mp hc
  exact visible_escapeAscii c hc

theorem visible_number (h : ∀ c ∈ cs, isNumberChar c = true) :
    Visible cs := by
  intro c hc
  have hnumber := h c hc
  refine ⟨?_, plain_of_isNumberChar hnumber⟩
  unfold isNumberChar Char.isDigit at hnumber
  simp only [Bool.or_eq_true, Bool.and_eq_true, decide_eq_true_eq]
    at hnumber
  rcases hnumber with ((((⟨hle, -⟩ | rfl) | rfl) | rfl) | rfl) | rfl
  · have hle : 48 ≤ c.toNat := UInt32.le_iff_toNat_le.mp hle
    omega
  all_goals decide

end Visible

-- ================================================================= printed

section Printed

variable {repr : String → String} {c : Char} {v : Json}

/-- An escaped character has nothing beyond `~` but itself. -/
theorem ascii_escapeChar : ascii (escapeChar c).toList = escapeAscii c := by
  unfold escapeAscii
  by_cases hc : c.toNat < 0x7f
  · rw [if_pos hc]
    exact ascii_id fun d hd => (visible_escapeChar hc d hd).2
  · rw [if_neg hc]
    unfold escapeChar
    split
    case h_8 =>
      rw [if_neg (by omega), String.toList_singleton, ascii_wide hc]
      exact (List.append_nil _).trans (if_neg hc).symm
    all_goals omega

theorem toList_quoteAscii (s : String) :
    (quoteAscii s).toList = ascii (quote s).toList := by
  rw [toList_quote, ascii_plain (by decide), ascii_append]
  unfold quoteAscii escaped ascii
  rw [List.flatMap_assoc,
    show (fun c => (escapeChar c).toList.flatMap asciiChar) = escapeAscii
      from funext fun _ => ascii_escapeChar]
  simp only [String.toList_append, String.toList_ofList]
  rfl

/-- A text that can be seen is what it is escaped. -/
theorem toList_visible {s : String} (h : Visible s.toList) :
    s.toList = ascii s.toList :=
  (ascii_id fun c hc => (h c hc).2).symm

mutual

/-- What is printed is what `dumps` prints, escaped. -/
theorem toList_dumpsAscii {repr : String → String} : ∀ {v : Json},
    PrintedFloats repr v → (dumpsAscii v).toList = ascii (dumps v).toList
  | .null, _ => by decide
  | .bool true, _ => by decide
  | .bool false, _ => by decide
  | .int n, _ => toList_visible (visible_number (numberOf_int id n).1)
  | .float r, h => by
      rw [dumpsAscii, dumps]
      rcases h with rfl | rfl | rfl | ⟨h, -⟩
      · decide
      · decide
      · decide
      · exact toList_visible (visible_number h)
  | .str s, _ => toList_quoteAscii s
  | .arr xs, h => by
      have hitems : PrintedItems repr xs := h
      rw [toList_arr, ascii_plain (by decide), ascii_append,
        ← toList_dumpsAsciiItems hitems, dumpsAscii,
        String.toList_append, String.toList_append]
      rfl
  | .obj ms, h => by
      have hmembers : PrintedMembers repr ms := h
      rw [toList_obj, ascii_plain (by decide), ascii_append,
        ← toList_dumpsAsciiMembers hmembers, dumpsAscii,
        String.toList_append, String.toList_append]
      rfl

/-- `toList_dumpsAscii` of the items. -/
theorem toList_dumpsAsciiItems {repr : String → String} :
    ∀ {xs : List Json}, PrintedItems repr xs →
      (dumpsAsciiItems xs).toList = ascii (dumpsItems xs).toList
  | [], _ => rfl
  | [x], h => by
      rw [dumpsAsciiItems, dumpsItems]
      exact toList_dumpsAscii h.1
  | x :: y :: xs, h => by
      have hrest : PrintedItems repr (y :: xs) := h.2
      rw [dumpsItems_cons, ascii_append, ascii_plain (by decide),
        ascii_plain (by decide), ← toList_dumpsAscii h.1,
        ← toList_dumpsAsciiItems hrest, dumpsAsciiItems,
        String.toList_append, String.toList_append, List.append_assoc]
      · rfl
      · exact List.cons_ne_nil y xs

/-- `toList_dumpsAscii` of the members. -/
theorem toList_dumpsAsciiMembers {repr : String → String} :
    ∀ {ms : List (String × Json)}, PrintedMembers repr ms →
      (dumpsAsciiMembers ms).toList = ascii (dumpsMembers ms).toList
  | [], _ => rfl
  | [(k, v)], h => by
      rw [dumpsAsciiMembers, dumpsMembers]
      simp only [String.toList_append, ascii_append, toList_quoteAscii,
        toList_dumpsAscii h.1]
      rfl
  | (k, v) :: m :: ms, h => by
      have hrest : PrintedMembers repr (m :: ms) := h.2
      rw [dumpsAsciiMembers, dumpsMembers]
      · simp only [String.toList_append, ascii_append, toList_quoteAscii,
          toList_dumpsAscii h.1, toList_dumpsAsciiMembers hrest]
        rfl
      · exact List.cons_ne_nil m ms
      · exact List.cons_ne_nil m ms

end

mutual

/-- A printed value is on one line. -/
theorem visible_dumpsAscii {repr : String → String} : ∀ {v : Json},
    PrintedFloats repr v → Visible (dumpsAscii v).toList
  | .null, _ => by decide
  | .bool true, _ => by decide
  | .bool false, _ => by decide
  | .int n, _ => visible_number (numberOf_int id n).1
  | .float r, h => by
      rw [dumpsAscii]
      rcases h with rfl | rfl | rfl | ⟨h, -⟩
      · decide
      · decide
      · decide
      · exact visible_number h
  | .str s, _ => visible_quoteAscii s
  | .arr xs, h => by
      have hitems : PrintedItems repr xs := h
      rw [dumpsAscii, String.toList_append, String.toList_append]
      exact (Visible.append (by decide)
        (visible_dumpsAsciiItems hitems)).append (by decide)
  | .obj ms, h => by
      have hmembers : PrintedMembers repr ms := h
      rw [dumpsAscii, String.toList_append, String.toList_append]
      exact (Visible.append (by decide)
        (visible_dumpsAsciiMembers hmembers)).append (by decide)

/-- `visible_dumpsAscii` of the items. -/
theorem visible_dumpsAsciiItems {repr : String → String} :
    ∀ {xs : List Json}, PrintedItems repr xs →
      Visible (dumpsAsciiItems xs).toList
  | [], _ => by decide
  | [x], h => by
      rw [dumpsAsciiItems]
      exact visible_dumpsAscii h.1
  | x :: y :: xs, h => by
      have hrest : PrintedItems repr (y :: xs) := h.2
      rw [dumpsAsciiItems, String.toList_append, String.toList_append]
      · exact ((visible_dumpsAscii h.1).append (by decide)).append
          (visible_dumpsAsciiItems hrest)
      · exact List.cons_ne_nil y xs

/-- `visible_dumpsAscii` of the members. -/
theorem visible_dumpsAsciiMembers {repr : String → String} :
    ∀ {ms : List (String × Json)}, PrintedMembers repr ms →
      Visible (dumpsAsciiMembers ms).toList
  | [], _ => by decide
  | [(k, v)], h => by
      rw [dumpsAsciiMembers, String.toList_append, String.toList_append]
      exact ((visible_quoteAscii k).append (by decide)).append
        (visible_dumpsAscii h.1)
  | (k, v) :: m :: ms, h => by
      have hrest : PrintedMembers repr (m :: ms) := h.2
      rw [dumpsAsciiMembers, String.toList_append, String.toList_append,
        String.toList_append, String.toList_append]
      · exact ((((visible_quoteAscii k).append (by decide)).append
          (visible_dumpsAscii h.1)).append (by decide)).append
            (visible_dumpsAsciiMembers hrest)
      · exact List.cons_ne_nil m ms

end

/-- `json.loads(json.dumps(v)) == v`. -/
theorem loads_dumpsAscii (h : IsPython repr v) :
    loads repr (dumpsAscii v) = some v := by
  have hloads := loads_ascii (loads_dumps h)
  rwa [← toList_dumpsAscii h.2, String.ofList_toList] at hloads

end Printed

end LegalBot.Json
