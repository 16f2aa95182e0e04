/-
`_ADDR_RE` read backwards: which addresses the lazy expression finds in
a stripped text `x ++ w ++ '<' :: e ++ ['>']`, where `x` is what stands
before the last bracket.

The expression takes at least one character for the name, takes no
newline, and stops at the first bracket after which no `>` comes before
the end. So it finds `e` just when `x` is there, has no newline, and
every `<` of it but a leading one has its `>` in `x` (`addrMatch_iff`);
anything else that it finds has a `<` in it (`addrMatch_cases`).

# Lower case

`Texts.Lowers` is what the proofs use of `str.lower`: brackets are
neither cased nor ignored for case, so a text may be lowered on each
side of one.
-/
import LegalBot.Memory.Ontology

namespace LegalBot.Memory

-- =================================================================== texts

/-- `str.lower`: it lowers what it has lowered to itself, goes past the
brackets, and makes neither brackets nor spaces of anything else. -/
structure Texts.Lowers (tx : Texts) : Prop where
  empty : tx.lower "" = ""
  idem : ∀ s, tx.lower (tx.lower s) = tx.lower s
  opening : ∀ a b, tx.lower (a ++ "<" ++ b) = tx.lower a ++ "<" ++ tx.lower b
  closing : ∀ a b, tx.lower (a ++ ">" ++ b) = tx.lower a ++ ">" ++ tx.lower b
  noOpening : ∀ s, '<' ∉ s.toList → '<' ∉ (tx.lower s).toList
  noSpace : ∀ s, (∀ c ∈ s.toList, isSpace c = false) →
    ∀ c ∈ (tx.lower s).toList, isSpace c = false

theorem toLower_cases (c : Char) :
    c.toLower = c ∨ 97 ≤ c.toLower.toNat ∧ c.toLower.toNat ≤ 122 := by
  by_cases hc : c.val ≥ 'A'.val ∧ c.val ≤ 'Z'.val
  · refine .inr ?_
    have hlow : 65 ≤ c.val.toNat := UInt32.le_iff_toNat_le.mp hc.1
    have hhigh : c.val.toNat ≤ 90 := UInt32.le_iff_toNat_le.mp hc.2
    have hval : c.toLower.toNat = (c.val.toNat + 32) % 2 ^ 32 :=
      congrArg Char.toNat (dif_pos hc)
    omega
  · exact .inl (dif_neg hc)

theorem toLower_toLower (c : Char) : c.toLower.toLower = c.toLower := by
  rcases toLower_cases c with hsame | hletter
  · rw [hsame, hsame]
  · refine dif_neg fun hc => ?_
    have hhigh : c.toLower.toNat ≤ 90 := UInt32.le_iff_toNat_le.mp hc.2
    omega

theorem sample_lowers : Texts.sample.Lowers where
  empty := rfl
  idem s := by
    apply String.ext
    simp only [Texts.sample, String.toList_ofList, List.map_map]
    exact List.map_congr_left fun c _ => toLower_toLower c
  opening a b := by
    apply String.ext
    simp [Texts.sample]
  closing a b := by
    apply String.ext
    simp [Texts.sample]
  noOpening s h := by
    simp only [Texts.sample, String.toList_ofList, List.mem_map]
    rintro ⟨c, hc, hlower⟩
    rcases toLower_cases c with hsame | hletter
    · rw [hsame] at hlower
      exact h (hlower ▸ hc)
    · rw [hlower] at hletter
      exact absurd hletter (by decide)
  noSpace s h := by
    simp only [Texts.sample, String.toList_ofList, List.mem_map]
    rintro c ⟨d, hd, rfl⟩
    rcases toLower_cases d with hsame | hletter
    · rw [hsame]
      exact h d hd
    · unfold isSpace
      simp only [Bool.or_eq_false_iff, Bool.and_eq_false_iff,
        decide_eq_false_iff_not, beq_eq_false_iff_ne]
      omega

/-- White space only. -/
def Spaces (cs : List Char) : Prop := ∀ c ∈ cs, isSpace c = true

/-- Every `<` has a `>` after it. -/
def Closed : List Char → Prop
  | [] => True
  | c :: rest => (c = '<' → '>' ∈ rest) ∧ Closed rest

instance (cs : List Char) : Decidable (Spaces cs) :=
  List.decidableBAll (fun c => isSpace c = true) cs

instance decClosed : (cs : List Char) → Decidable (Closed cs)
  | [] => .isTrue trivial
  | c :: rest =>
      have := decClosed rest
      inferInstanceAs (Decidable ((c = '<' → '>' ∈ rest) ∧ Closed rest))

-- ================================================================ stripping

section Strip

variable {c d : Char} {cs v w x : List Char}

theorem Spaces.append (hv : Spaces v) (hw : Spaces w) : Spaces (v ++ w) := by
  intro c hc
  rcases List.mem_append.mp hc with hc | hc
  · exact hv c hc
  · exact hw c hc

theorem stripChars_length_le (cs : List Char) :
    (stripChars cs).length ≤ cs.length := by
  unfold stripChars
  rw [List.length_reverse]
  calc ((cs.dropWhile isSpace).reverse.dropWhile isSpace).length
      ≤ (cs.dropWhile isSpace).reverse.length :=
        (List.dropWhile_sublist _).length_le
    _ = (cs.dropWhile isSpace).length := List.length_reverse
    _ ≤ cs.length := (List.dropWhile_sublist _).length_le

theorem stripChars_left (hv : Spaces v) :
    stripChars (v ++ cs) = stripChars cs := by
  unfold stripChars
  rw [List.dropWhile_append_of_pos hv]

theorem stripChars_right (hw : Spaces w) :
    stripChars (cs ++ w) = stripChars cs := by
  unfold stripChars
  rw [List.dropWhile_append]
  by_cases hcs : cs.dropWhile isSpace = []
  · have hall : w.dropWhile isSpace = [] := List.dropWhile_eq_nil_iff.mpr hw
    simp [hcs, hall]
  · rw [if_neg (by simpa using hcs), List.reverse_append,
      List.dropWhile_append_of_pos]
    intro c hc
    exact hw c (List.mem_reverse.mp hc)

theorem dark_of_all (h : (cs.all fun c => !isSpace c) = true) :
    ∀ c ∈ cs, isSpace c = false := by
  intro c hc
  have hdark := List.all_eq_true.mp h c hc
  rwa [Bool.not_eq_true'] at hdark

/-- A text is its stripped text between spaces. -/
theorem exists_stripChars (cs : List Char) :
    ∃ v w, Spaces v ∧ Spaces w ∧ cs = v ++ (stripChars cs ++ w) := by
  refine ⟨cs.takeWhile isSpace, (cs.dropWhile isSpace).rtakeWhile isSpace,
    fun c hc => List.mem_takeWhile_imp hc,
    fun c hc => List.mem_rtakeWhile_imp hc, ?_⟩
  have hright : stripChars cs
      ++ (cs.dropWhile isSpace).rtakeWhile isSpace
        = cs.dropWhile isSpace :=
    List.rdropWhile_append_rtakeWhile
  rw [hright, List.takeWhile_append_dropWhile]

theorem mem_of_mem_stripChars (h : c ∈ stripChars cs) : c ∈ cs := by
  obtain ⟨v, w, -, -, hsplit⟩ := exists_stripChars cs
  rw [hsplit]
  exact List.mem_append_right _ (List.mem_append_left _ h)

/-- No space first in a stripped text. -/
theorem isSpace_first (h : stripChars (c :: cs) = c :: cs) :
    isSpace c = false := by
  by_contra hc
  rw [Bool.not_eq_false] at hc
  have hcs : stripChars (c :: cs) = stripChars cs :=
    stripChars_left (v := [c]) (by simpa [Spaces] using hc)
  have hlen := stripChars_length_le cs
  rw [← hcs, h, List.length_cons] at hlen
  omega

/-- No space last in it either. -/
theorem isSpace_last (h : stripChars (cs ++ [d]) = cs ++ [d]) :
    isSpace d = false := by
  by_contra hd
  rw [Bool.not_eq_false] at hd
  have hcs : stripChars (cs ++ [d]) = stripChars cs :=
    stripChars_right (by simpa [Spaces] using hd)
  have hlen := stripChars_length_le cs
  rw [← hcs, h, List.length_append, List.length_singleton] at hlen
  omega

/-- What has no space at its ends is stripped. -/
theorem stripChars_ends (hc : isSpace c = false) (hd : isSpace d = false) :
    stripChars (c :: (cs ++ [d])) = c :: (cs ++ [d]) := by
  unfold stripChars
  rw [List.dropWhile_cons_of_neg (by simp [hc]), List.reverse_cons,
    List.reverse_append, List.reverse_singleton, List.singleton_append,
    List.cons_append, List.dropWhile_cons_of_neg (by simp [hd])]
  simp

/-- Nor is there anything to strip where there is no space. -/
theorem stripChars_dark (h : ∀ c ∈ cs, isSpace c = false) :
    stripChars cs = cs := by
  cases cs with
  | nil => rfl
  | cons c cs =>
      cases cs using List.reverseRecOn with
      | nil => simp [stripChars, h c List.mem_cons_self]
      | append_singleton cs d _ =>
          exact stripChars_ends (h c (by simp)) (h d (by simp))

end Strip

-- ================================================================= brackets

/-- The text of the bracket: spaces, then the address between `<` and
`>`, at the end. -/
def bracketed (w e : List Char) : List Char := w ++ '<' :: (e ++ ['>'])

section Brackets

variable {c : Char} {cs e a n taken w x : List Char}

theorem addrTail_iff :
    addrTail cs = some a
      ↔ a ≠ [] ∧ '>' ∉ a ∧ ∃ v, Spaces v ∧ cs = bracketed v a := by
  unfold addrTail bracketed
  constructor
  · intro h
    have hcs : cs.takeWhile isSpace ++ cs.dropWhile isSpace = cs :=
      List.takeWhile_append_dropWhile
    split at h
    · rename_i inner hinner
      split at h
      · rename_i hlast
        obtain ⟨hlast, hne, hclose⟩ := hlast
        cases h
        refine ⟨hne, hclose, cs.takeWhile isSpace,
          fun c hc => List.mem_takeWhile_imp hc, ?_⟩
        have hends : inner.dropLast ++ ['>'] = inner :=
          List.dropLast_append_getLast? '>' hlast
        rw [hends, ← hinner, hcs]
      · cases h
    · cases h
  · rintro ⟨hne, hclose, v, hv, rfl⟩
    rw [List.dropWhile_append_of_pos hv,
      List.dropWhile_cons_of_neg (by decide)]
    simp [hne, hclose]

/-- The bracket itself is found. -/
theorem addrTail_bracketed (hw : Spaces w) (hne : e ≠ []) (he : '>' ∉ e) :
    addrTail (bracketed w e) = some e :=
  addrTail_iff.mpr ⟨hne, he, w, hw, rfl⟩

theorem addrTail_absent (h : '<' ∉ cs) : addrTail cs = none := by
  cases hcs : addrTail cs with
  | none => rfl
  | some a =>
      obtain ⟨-, -, v, -, rfl⟩ := addrTail_iff.mp hcs
      exact absurd (by simp [bracketed]) h

/-- A leading bracket is part of the name, so no address is found. -/
theorem addrMatch_absent (h : '<' ∉ cs.tail) :
    addrMatch taken cs = none := by
  induction cs generalizing taken with
  | nil => rfl
  | cons c cs ih =>
      rw [List.tail_cons] at h
      rw [addrMatch]
      split
      · rfl
      · rw [addrTail_absent h]
        exact ih fun htail => h (List.mem_of_mem_tail htail)

theorem closed_of_absent (h : '<' ∉ x) : Closed x := by
  induction x with
  | nil => trivial
  | cons c x ih =>
      rw [List.mem_cons, not_or] at h
      exact ⟨fun hc => absurd hc.symm h.1, ih h.2⟩

/-- What the end of the expression finds in front of the bracket: a `<`
of `x` that has no `>`. -/
theorem addrTail_before (hx : ∀ y d, x = y ++ [d] → isSpace d = false)
    (hne : x ≠ []) (h : addrTail (x ++ bracketed w e) = some a) :
    '<' ∈ a ∧ '<' ∈ x ∧ ¬Closed x := by
  induction x with
  | nil => exact absurd rfl hne
  | cons c x ih =>
      obtain ⟨ha, hclose, v, hv, heq⟩ := addrTail_iff.mp h
      cases v with
      | nil =>
          -- the bracket found is the first character
          have heq' : c :: (x ++ bracketed w e) = '<' :: (a ++ ['>']) := heq
          injection heq' with hc heq'
          subst hc
          have hsplit : (x ++ (w ++ '<' :: e)) ++ ['>'] = a ++ ['>'] := by
            rw [← heq']
            simp [bracketed]
          have hin := List.append_cancel_right hsplit
          subst hin
          refine ⟨by simp, List.mem_cons_self, fun hclosed => hclose ?_⟩
          exact List.mem_append_left _ (hclosed.1 rfl)
      | cons s v =>
          have heq' : c :: (x ++ bracketed w e)
              = s :: (v ++ '<' :: (a ++ ['>'])) := heq
          injection heq' with hc heq'
          subst hc
          have hx' : x ≠ [] := by
            rintro rfl
            have hdark := hx [] c rfl
            rw [hv c List.mem_cons_self] at hdark
            cases hdark
          have hrest := ih (fun y d hy => hx (c :: y) d (by rw [hy]; rfl))
            hx' (addrTail_iff.mpr ⟨ha, hclose, v,
              fun t ht => hv t (List.mem_cons_of_mem _ ht), heq'⟩)
          exact ⟨hrest.1, List.mem_cons_of_mem _ hrest.2.1,
            fun hclosed => hrest.2.2 hclosed.2⟩

/-- And a `<` that has no `>` in `x` is found when nothing but spaces
comes before it. -/
theorem addrTail_open (he : '>' ∉ e) (hw : Spaces w) (hx : '>' ∉ x) :
    addrTail ('<' :: (x ++ bracketed w e)) = some (x ++ (w ++ '<' :: e)) := by
  refine addrTail_iff.mpr ⟨by simp, ?_, [], fun c hc => ?_, ?_⟩
  · intro hmem
    rcases List.mem_append.mp hmem with hmem | hmem
    · exact hx hmem
    · rcases List.mem_append.mp hmem with hmem | hmem
      · exact absurd (hw _ hmem) (by decide)
      · rcases List.mem_cons.mp hmem with hmem | hmem
        · cases hmem
        · exact he hmem
  · cases hc
  · simp [bracketed]

/-- The text before the bracket does not stop the expression: it has a
first character, no newline, and after the first character no `<` that
is left open. -/
def Passable (x : List Char) : Prop :=
  x ≠ [] ∧ '\n' ∉ x ∧ Closed x.tail

instance (x : List Char) : Decidable (Passable x) :=
  inferInstanceAs (Decidable (x ≠ [] ∧ '\n' ∉ x ∧ Closed x.tail))

theorem Passable.cons (hc : c ≠ '\n') (h : Passable x)
    (hclosed : Closed x) : Passable (c :: x) := by
  refine ⟨List.cons_ne_nil _ _, fun hmem => ?_, hclosed⟩
  rcases List.mem_cons.mp hmem with hmem | hmem
  · exact hc hmem.symm
  · exact h.2.1 hmem

/-- What is found: the address, or something with a `<` in it. -/
theorem addrMatch_cases (hx : ∀ y d, x = y ++ [d] → isSpace d = false)
    (hxne : x ≠ []) (hw : Spaces w) (hne : e ≠ []) (he : '>' ∉ e)
    (h : addrMatch taken (x ++ bracketed w e) = some (n, a)) :
    (Passable x ∧ a = e) ∨ ('<' ∈ a ∧ '<' ∈ x.tail) := by
  induction x generalizing taken with
  | nil => exact absurd rfl hxne
  | cons c x ih =>
      rw [List.cons_append, addrMatch] at h
      split at h
      · cases h
      · rename_i hc
        cases x with
        | nil =>
            rw [List.nil_append, addrTail_bracketed hw hne he] at h
            cases h
            refine .inl ⟨⟨List.cons_ne_nil _ _, fun hmem => ?_, trivial⟩, rfl⟩
            exact hc (List.mem_singleton.mp hmem).symm
        | cons d x =>
            have hx' : ∀ y t, d :: x = y ++ [t] → isSpace t = false :=
              fun y t hy => hx (c :: y) t (by rw [hy]; rfl)
            cases htail : addrTail (d :: x ++ bracketed w e) with
            | some found =>
                rw [htail] at h
                cases h
                have hbefore := addrTail_before hx' (List.cons_ne_nil _ _) htail
                exact .inr ⟨hbefore.1, hbefore.2.1⟩
            | none =>
                rw [htail] at h
                rcases ih hx' (List.cons_ne_nil _ _) h
                  with ⟨hpass, ha⟩ | ⟨ha, hmem⟩
                · refine .inl ⟨hpass.cons hc ⟨fun hd => ?_, hpass.2.2⟩, ha⟩
                  by_contra hclose
                  subst hd
                  rw [List.cons_append, addrTail_open he hw hclose] at htail
                  cases htail
                · exact .inr ⟨ha, List.mem_cons_of_mem _ hmem⟩

/-- Where nothing stops it, the expression takes all of `x`. -/
theorem addrMatch_passable (taken : List Char)
    (hx : ∀ y d, x = y ++ [d] → isSpace d = false)
    (hw : Spaces w) (hne : e ≠ []) (he : '>' ∉ e) (h : Passable x) :
    addrMatch taken (x ++ bracketed w e) = some (taken ++ x, e) := by
  -- `taken` grows along `x`
  induction x generalizing taken with
  | nil => exact absurd rfl h.1
  | cons c x ih =>
      obtain ⟨-, hline, hclosed⟩ := h
      rw [List.mem_cons, not_or] at hline
      rw [List.cons_append, addrMatch, if_neg (Ne.symm hline.1)]
      cases x with
      | nil => rw [List.nil_append, addrTail_bracketed hw hne he]
      | cons d x =>
          have hx' : ∀ y t, d :: x = y ++ [t] → isSpace t = false :=
            fun y t hy => hx (c :: y) t (by rw [hy]; rfl)
          cases htail : addrTail (d :: x ++ bracketed w e) with
          | some found =>
              have hbefore := addrTail_before hx' (List.cons_ne_nil _ _) htail
              exact absurd hclosed hbefore.2.2
          | none =>
              have hrest := ih (taken ++ [c]) hx'
                ⟨List.cons_ne_nil _ _, hline.2, hclosed.2⟩
              rw [List.append_assoc] at hrest
              exact hrest

/-- A text with the bracket at its end, stripped. -/
theorem stripChars_bracketed {p pre post : List Char} (hpre : Spaces pre)
    (hpost : Spaces post) (hw : Spaces w) :
    (stripChars p = []
        ∧ stripChars (pre ++ (p ++ bracketed w e) ++ post) = bracketed [] e)
      ∨ ∃ v, Spaces v ∧ stripChars p ≠ []
        ∧ stripChars (pre ++ (p ++ bracketed w e) ++ post)
          = stripChars p ++ bracketed v e := by
  obtain ⟨before, after, hbefore, hafter, hp⟩ := exists_stripChars p
  rw [stripChars_right hpost, stripChars_left hpre]
  by_cases hempty : stripChars p = []
  · refine .inl ⟨hempty, ?_⟩
    have hsplit : p ++ bracketed w e
        = before ++ (after ++ (w ++ bracketed [] e)) := by
      rw [hempty, List.nil_append] at hp
      rw [hp]
      simp [bracketed]
    rw [hsplit, stripChars_left hbefore, stripChars_left hafter,
      stripChars_left hw]
    exact stripChars_ends (by decide) (by decide)
  · refine .inr ⟨after ++ w, hafter.append hw, hempty, ?_⟩
    have hsplit : p ++ bracketed w e
        = before ++ (stripChars p ++ bracketed (after ++ w) e) := by
      rw [bracketed, bracketed]
      conv_lhs => rw [hp]
      simp
    rw [hsplit, stripChars_left hbefore]
    cases hx : stripChars p with
    | nil => exact absurd hx hempty
    | cons c x =>
        have hc : isSpace c = false :=
          isSpace_first (by rw [← hx, stripChars_stripChars])
        have hends : c :: x ++ bracketed (after ++ w) e
            = c :: (x ++ (after ++ w) ++ '<' :: e ++ ['>']) := by
          simp [bracketed]
        rw [hends]
        exact stripChars_ends hc (by decide)

end Brackets

-- ================================================================== parsing

section Parse

variable {tx : Texts} {raw : String} {a e n p pre post w : List Char}

theorem parse_found (h : addrMatch [] (stripChars raw.toList) = some (n, a)) :
    (parseEmailAddress tx raw).2 = tx.lower (strip (String.ofList a)) := by
  have hne : strip raw ≠ "" := by
    intro hempty
    have hchars : stripChars raw.toList = [] := by
      have := congrArg String.toList hempty
      rwa [strip, String.toList_ofList] at this
    rw [hchars] at h
    cases h
  unfold parseEmailAddress
  rw [if_neg hne]
  dsimp only
  rw [strip, String.toList_ofList, h]

theorem parse_unfound (hne : stripChars raw.toList ≠ [])
    (h : addrMatch [] (stripChars raw.toList) = none) :
    (parseEmailAddress tx raw).2 = tx.lower (strip raw) := by
  have hraw : strip raw ≠ "" := by
    intro hempty
    have := congrArg String.toList hempty
    rw [strip, String.toList_ofList] at this
    exact hne this
  unfold parseEmailAddress
  rw [if_neg hraw]
  dsimp only
  rw [show (strip raw).toList = stripChars raw.toList from
    String.toList_ofList, h]

/-- A bracket stays. -/
theorem Texts.Lowers.opening_mem (htx : tx.Lowers) {s : String}
    (h : '<' ∈ s.toList) : '<' ∈ (tx.lower s).toList := by
  obtain ⟨a, b, hs⟩ := List.append_of_mem h
  have hsplit : s = String.ofList a ++ "<" ++ String.ofList b := by
    apply String.ext
    simp [hs]
  rw [hsplit, htx.opening]
  simp

theorem Texts.Lowers.ne_of_opening (htx : tx.Lowers) {s t : String}
    (hs : '<' ∈ s.toList) (ht : '<' ∉ t.toList) :
    tx.lower s ≠ tx.lower t := by
  intro h
  have hmem := htx.opening_mem hs
  rw [h] at hmem
  exact htx.noOpening t ht hmem

/-- The text between the brackets, with what surrounds it. -/
structure Bracketed (raw : String) (p e : List Char) : Prop where
  text : ∃ pre w post, Spaces pre ∧ Spaces w ∧ Spaces post
    ∧ raw.toList = pre ++ (p ++ bracketed w e) ++ post
  nonempty : e ≠ []
  trimmed : stripChars e = e
  noOpening : '<' ∉ e
  noClosing : '>' ∉ e

theorem Bracketed.strip_cases (h : Bracketed raw p e) :
    (stripChars p = [] ∧ stripChars raw.toList = bracketed [] e)
      ∨ ∃ v, Spaces v ∧ stripChars p ≠ []
        ∧ stripChars raw.toList = stripChars p ++ bracketed v e := by
  obtain ⟨pre, w, post, hpre, hw, hpost, hraw⟩ := h.text
  rw [hraw]
  exact stripChars_bracketed hpre hpost hw

theorem stripped_last {p : List Char} :
    ∀ y d, stripChars p = y ++ [d] → isSpace d = false := by
  intro y d hy
  exact isSpace_last (by rw [← hy, stripChars_stripChars])

theorem Bracketed.stripped_ne (h : Bracketed raw p e) :
    stripChars raw.toList ≠ [] := by
  rcases h.strip_cases with ⟨-, hraw⟩ | ⟨v, -, -, hraw⟩
  · rw [hraw]
    simp [bracketed]
  · rw [hraw]
    simp [bracketed]

theorem Bracketed.opening_mem (h : Bracketed raw p e) :
    '<' ∈ (strip raw).toList := by
  rw [strip, String.toList_ofList]
  rcases h.strip_cases with ⟨-, hraw⟩ | ⟨v, -, -, hraw⟩
  · rw [hraw]
    simp [bracketed]
  · rw [hraw]
    simp [bracketed]

/-- Where the text before the brackets is not passable, nothing is found
but from a `<` of it on. -/
theorem Bracketed.found_opening (h : Bracketed raw p e)
    (hpass : ¬Passable (stripChars p))
    (hmatch : addrMatch [] (stripChars raw.toList) = some (n, a)) :
    '<' ∈ a ∧ '<' ∈ p := by
  rcases h.strip_cases with ⟨-, hraw⟩ | ⟨v, hv, hne, hraw⟩
  · have hnone : addrMatch [] (bracketed [] e) = none := by
      refine addrMatch_absent fun hmem => h.noOpening ?_
      simpa [bracketed] using hmem
    rw [hraw, hnone] at hmatch
    cases hmatch
  · rw [hraw] at hmatch
    rcases addrMatch_cases stripped_last hne hv h.nonempty h.noClosing hmatch
      with hgood | hbad
    · exact absurd hgood.1 hpass
    · exact ⟨hbad.1, mem_of_mem_stripChars (List.mem_of_mem_tail hbad.2)⟩

/-- So the whole text is the email when `p` has no `<`. -/
theorem Bracketed.unmatched (h : Bracketed raw p e) (hp : '<' ∉ p)
    (hpass : ¬Passable (stripChars p)) :
    (parseEmailAddress tx raw).2 = tx.lower (strip raw) := by
  refine parse_unfound h.stripped_ne ?_
  cases hmatch : addrMatch [] (stripChars raw.toList) with
  | none => rfl
  | some found => exact absurd (h.found_opening hpass hmatch).2 hp

/-- The email is the address between the brackets just when the text
before them is passable. -/
theorem Bracketed.email_iff (htx : tx.Lowers) (h : Bracketed raw p e) :
    (parseEmailAddress tx raw).2 = tx.lower (String.ofList e)
      ↔ Passable (stripChars p) := by
  have hchars : '<' ∉ (String.ofList e).toList := by
    rw [String.toList_ofList]
    exact h.noOpening
  constructor
  · intro hemail
    by_contra hpass
    cases hmatch : addrMatch [] (stripChars raw.toList) with
    | none =>
        rw [parse_unfound h.stripped_ne hmatch] at hemail
        exact htx.ne_of_opening h.opening_mem hchars hemail
    | some found =>
        rw [parse_found (n := found.1) hmatch] at hemail
        refine htx.ne_of_opening ?_ hchars hemail
        rw [strip, String.toList_ofList, String.toList_ofList]
        exact mem_stripChars (h.found_opening hpass hmatch).1 (by decide)
  · intro hpass
    rcases h.strip_cases with ⟨hempty, -⟩ | ⟨v, hv, -, hraw⟩
    · exact absurd hempty hpass.1
    · have hmatch := addrMatch_passable [] stripped_last hv
        h.nonempty h.noClosing hpass
      rw [← hraw] at hmatch
      rw [parse_found hmatch, strip, String.toList_ofList, h.trimmed]

/-- A text without a bracket is the email. -/
theorem parse_bare (hne : stripChars raw.toList ≠ [])
    (h : '<' ∉ raw.toList) :
    (parseEmailAddress tx raw).2 = tx.lower (strip raw) := by
  exact parse_unfound hne (addrMatch_absent fun hmem =>
    h (mem_of_mem_stripChars (List.mem_of_mem_tail hmem)))

end Parse

end LegalBot.Memory
