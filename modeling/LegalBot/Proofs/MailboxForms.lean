/-
One mailbox in the forms of a header: `e`, `<e>`, `Name <e>`, `"Name" <e>`
and `Name<e>`, in any casing and with white space around them.

The expression of `parse_email_address` wants a character before the
bracket, and no newline. So `<e>` is not read as a mailbox but kept as an
address of its own, and so is a form whose name has only white space in
it or a newline inside; every other form gives `lower(e)`
(`one_person_iff`). Two mailboxes never share a key in any of the forms.
-/
import LegalBot.Memory.Addresses

namespace LegalBot.Memory

-- ==================================================================== forms

/-- How a header writes an address. -/
inductive MailForm where
  | bare
  | angle
  | named (name : String)
  | quoted (name : String)
  | joined (name : String)
  deriving DecidableEq, Repr

/-- What stands before the bracket, for a form with one. -/
def MailForm.phrase : MailForm → Option (List Char)
  | .bare => none
  | .angle => some []
  | .named name => some name.toList
  | .quoted name => some ('"' :: (name.toList ++ ['"']))
  | .joined name => some name.toList

/-- The text of the form. -/
def MailForm.render (e : String) : MailForm → String
  | .bare => e
  | .angle => "<" ++ e ++ ">"
  | .named name => name ++ " <" ++ e ++ ">"
  | .quoted name => "\"" ++ name ++ "\" <" ++ e ++ ">"
  | .joined name => name ++ "<" ++ e ++ ">"

/-- An addr-spec: no white space and no angle brackets. -/
structure AddrSpec (e : String) : Prop where
  nonempty : e ≠ ""
  dark : ∀ c ∈ e.toList, isSpace c = false
  noOpening : '<' ∉ e.toList
  noClosing : '>' ∉ e.toList

/-- An address string: an addr-spec in a form whose name has no angle
brackets, between white space. -/
structure AddressText where
  before : String
  form : MailForm
  spec : String
  after : String
  beforeSpaces : Spaces before.toList
  isSpec : AddrSpec spec
  noBracket : ∀ p, form.phrase = some p → '<' ∉ p ∧ '>' ∉ p
  afterSpaces : Spaces after.toList

def AddressText.raw (m : AddressText) : String :=
  m.before ++ m.form.render m.spec ++ m.after

/-- `person_canonical_key` of what `parse_email_address` makes of it. -/
def AddressText.key (tx : Texts) (m : AddressText) : String :=
  personCanonicalKey tx (parseEmailAddress tx m.raw).2

/-- The form is bare, or the text before the bracket is more than white
space and has no newline but at its ends. -/
def MailForm.Readable (f : MailForm) : Prop :=
  ∀ p, f.phrase = some p → stripChars p ≠ [] ∧ '\n' ∉ stripChars p

-- ================================================================== reading

section Reading

variable {tx : Texts} {m m' : AddressText} {p : List Char}

theorem bare_of_none {f : MailForm} (h : f.phrase = none) : f = .bare := by
  cases f with
  | bare => rfl
  | angle => cases h
  | named name => cases h
  | quoted name => cases h
  | joined name => cases h

/-- A form with a bracket is its phrase, one space or none, and the
bracket. -/
theorem MailForm.render_toList {f : MailForm} (hp : f.phrase = some p)
    (e : String) :
    ∃ w, Spaces w ∧ (f.render e).toList = p ++ Memory.bracketed w e.toList := by
  have hblank : Spaces [' '] := by decide
  have hnone : Spaces [] := by decide
  cases f with
  | bare => cases hp
  | angle =>
      cases hp
      exact ⟨[], hnone, by simp [MailForm.render, Memory.bracketed]⟩
  | named name =>
      cases hp
      exact ⟨[' '], hblank, by simp [MailForm.render, Memory.bracketed]⟩
  | quoted name =>
      cases hp
      exact ⟨[' '], hblank, by simp [MailForm.render, Memory.bracketed]⟩
  | joined name =>
      cases hp
      exact ⟨[], hnone, by simp [MailForm.render, Memory.bracketed]⟩

theorem AddressText.bracketed (m : AddressText)
    (hp : m.form.phrase = some p) : Bracketed m.raw p m.spec.toList := by
  have hne : m.spec.toList ≠ [] := fun hempty =>
    m.isSpec.nonempty (String.ext hempty)
  obtain ⟨w, hw, hrender⟩ := MailForm.render_toList hp m.spec
  refine ⟨⟨_, w, _, m.beforeSpaces, hw, m.afterSpaces, ?_⟩, hne,
    stripChars_dark m.isSpec.dark, m.isSpec.noOpening, m.isSpec.noClosing⟩
  rw [AddressText.raw, String.toList_append, String.toList_append, hrender]

/-- A bare addr-spec is what is left of its text. -/
theorem AddressText.strip_bare (hform : m.form = .bare) :
    strip m.raw = m.spec := by
  have hchars : m.raw.toList
      = m.before.toList ++ m.spec.toList ++ m.after.toList := by
    simp [AddressText.raw, hform, MailForm.render]
  rw [strip, hchars, stripChars_right m.afterSpaces,
    stripChars_left m.beforeSpaces, stripChars_dark m.isSpec.dark,
    String.ofList_toList]

theorem AddressText.email_bare (hform : m.form = .bare) :
    (parseEmailAddress tx m.raw).2 = tx.lower m.spec := by
  have hchars : stripChars m.raw.toList = m.spec.toList := by
    have hstrip := congrArg String.toList (m.strip_bare hform)
    rwa [strip, String.toList_ofList] at hstrip
  have hne : stripChars m.raw.toList ≠ [] := fun hempty =>
    m.isSpec.nonempty (String.ext (hchars.symm.trans hempty))
  rw [parse_unfound hne, m.strip_bare hform]
  rw [hchars]
  exact addrMatch_absent fun hmem =>
    m.isSpec.noOpening (List.mem_of_mem_tail hmem)

theorem AddressText.passable_iff (m : AddressText)
    (hp : m.form.phrase = some p) :
    Passable (stripChars p) ↔ m.form.Readable := by
  have hclosed : Closed (stripChars p).tail := closed_of_absent fun hmem =>
    (m.noBracket p hp).1 (mem_of_mem_stripChars (List.mem_of_mem_tail hmem))
  constructor
  · intro h q hq
    rw [hp] at hq
    cases hq
    exact ⟨h.1, h.2.1⟩
  · intro h
    exact ⟨(h p hp).1, (h p hp).2, hclosed⟩

theorem AddressText.email_iff (htx : tx.Lowers) (m : AddressText) :
    (parseEmailAddress tx m.raw).2 = tx.lower m.spec ↔ m.form.Readable := by
  cases hp : m.form.phrase with
  | none =>
      refine ⟨fun _ p hq => ?_, fun _ => m.email_bare (bare_of_none hp)⟩
      rw [hp] at hq
      cases hq
  | some p =>
      rw [← m.passable_iff hp, ← (m.bracketed hp).email_iff htx,
        String.ofList_toList]

end Reading

-- ===================================================================== keys

/-- A text that ends in the bracketed address `e`. -/
def EndsIn (e s : String) : Prop := ∃ front, s = front ++ "<" ++ e ++ ">"

section Keys

variable {tx : Texts} {m m' : AddressText} {e e' s : String}
  {cs p : List Char}

theorem endsIn_of_stripped (h : (stripChars p = [] ∧ cs = bracketed [] e.toList)
    ∨ ∃ v, Spaces v ∧ stripChars p ≠ []
      ∧ cs = stripChars p ++ bracketed v e.toList) :
    EndsIn e (String.ofList cs) := by
  rcases h with ⟨-, rfl⟩ | ⟨v, -, -, rfl⟩
  · refine ⟨"", String.ext ?_⟩
    simp [bracketed]
  · refine ⟨String.ofList (stripChars p ++ v), String.ext ?_⟩
    simp [bracketed]

theorem EndsIn.strip (h : EndsIn e s) : EndsIn e (strip s) := by
  obtain ⟨front, rfl⟩ := h
  refine endsIn_of_stripped (p := front.toList) ?_
  have hnone : Spaces [] := by decide
  have hcases := stripChars_bracketed (e := e.toList) (p := front.toList)
    hnone hnone hnone
  have hchars : (front ++ "<" ++ e ++ ">").toList
      = [] ++ (front.toList ++ bracketed [] e.toList) ++ [] := by
    simp [bracketed]
  rw [hchars]
  exact hcases

theorem EndsIn.lower (htx : tx.Lowers) (h : EndsIn e s) :
    EndsIn (tx.lower e) (tx.lower s) := by
  obtain ⟨front, rfl⟩ := h
  refine ⟨tx.lower front, ?_⟩
  calc tx.lower (front ++ "<" ++ e ++ ">")
      = tx.lower (front ++ "<" ++ e ++ ">" ++ "") := by rw [String.append_empty]
    _ = tx.lower front ++ "<" ++ tx.lower e ++ ">" := by
        rw [htx.closing, htx.opening, htx.empty, String.append_empty]

/-- The address is what comes after the last `<`. -/
theorem EndsIn.unique (he : '<' ∉ e.toList) (he' : '<' ∉ e'.toList)
    (h : EndsIn e s) (h' : EndsIn e' s) : e = e' := by
  obtain ⟨front, rfl⟩ := h
  obtain ⟨front', heq⟩ := h'
  have hchars : front.toList ++ '<' :: (e.toList ++ ['>'])
      = front'.toList ++ '<' :: (e'.toList ++ ['>']) := by
    have := congrArg String.toList heq
    simpa using this
  have hlast : ∀ a b : List Char, '<' ∉ b →
      ((a ++ '<' :: (b ++ ['>'])).splitOn '<').getLast? = some (b ++ ['>']) := by
    intro a b hb
    have hone : (b ++ ['>']).splitOn '<' = [b ++ ['>']] :=
      List.splitOn_eq_singleton (by simpa using hb)
    rw [List.splitOn_append_cons_self, hone]
    exact List.getLast?_concat
  have hends := hlast front.toList e.toList he
  rw [hchars, hlast front'.toList e'.toList he'] at hends
  have htext := List.append_cancel_right (Option.some.inj hends)
  exact (String.ext htext).symm

theorem key_spec (htx : tx.Lowers) (he : AddrSpec e) :
    personCanonicalKey tx (tx.lower e) = "email:" ++ tx.lower e := by
  have hstrip : strip (tx.lower e) = tx.lower e := by
    rw [strip, stripChars_dark (htx.noSpace e he.dark), String.ofList_toList]
  rw [personCanonicalKey, hstrip, htx.idem]

/-- The key of a form that is not read still ends in the addr-spec. -/
theorem AddressText.key_unread (htx : tx.Lowers) (m : AddressText)
    (h : ¬m.form.Readable) :
    ∃ s, m.key tx = "email:" ++ s ∧ EndsIn (tx.lower m.spec) s := by
  cases hp : m.form.phrase with
  | none =>
      refine absurd (fun p hq => ?_) h
      rw [hp] at hq
      cases hq
  | some p =>
      have hb := m.bracketed hp
      have hemail : (parseEmailAddress tx m.raw).2
          = tx.lower (LegalBot.strip m.raw) :=
        hb.unmatched (m.noBracket p hp).1 ((m.passable_iff hp).not.mpr h)
      have hends : EndsIn m.spec (LegalBot.strip m.raw) :=
        endsIn_of_stripped hb.strip_cases
      refine ⟨_, rfl, ?_⟩
      rw [hemail]
      have hlower := (hends.lower htx).strip.lower htx
      rw [htx.idem] at hlower
      exact hlower

theorem AddressText.key_read (htx : tx.Lowers) (m : AddressText)
    (h : m.form.Readable) : m.key tx = "email:" ++ tx.lower m.spec := by
  rw [AddressText.key, (m.email_iff htx).mpr h, key_spec htx m.isSpec]

theorem AddressText.lower_noOpening (htx : tx.Lowers) (m : AddressText) :
    '<' ∉ (tx.lower m.spec).toList :=
  htx.noOpening _ m.isSpec.noOpening

theorem append_left_cancel {a b c : String} (h : a ++ b = a ++ c) : b = c := by
  have hchars := congrArg String.toList h
  rw [String.toList_append, String.toList_append] at hchars
  exact String.ext (List.append_cancel_left hchars)

/-- What is not read never has the key of an address. -/
theorem AddressText.key_unread_ne (htx : tx.Lowers) (m m' : AddressText)
    (h : ¬m.form.Readable) : m.key tx ≠ "email:" ++ tx.lower m'.spec := by
  intro heq
  obtain ⟨s, hkey, front, hs⟩ := m.key_unread htx h
  rw [hkey] at heq
  have hmem : '<' ∈ s.toList := by
    rw [hs]
    simp
  rw [append_left_cancel heq] at hmem
  exact m'.lower_noOpening htx hmem

theorem AddressText.key_iff (htx : tx.Lowers) (m : AddressText) :
    m.key tx = "email:" ++ tx.lower m.spec ↔ m.form.Readable :=
  ⟨fun hkey => by_contra fun h => m.key_unread_ne htx m h hkey,
    m.key_read htx⟩

/-- The addr-spec can be read off the key, whatever the form. -/
theorem AddressText.key_injective (htx : tx.Lowers) (m m' : AddressText)
    (h : m.key tx = m'.key tx) : tx.lower m.spec = tx.lower m'.spec := by
  by_cases hm : m.form.Readable
  · by_cases hm' : m'.form.Readable
    · rw [m.key_read htx hm, m'.key_read htx hm'] at h
      exact append_left_cancel h
    · rw [m.key_read htx hm] at h
      exact absurd h.symm (m'.key_unread_ne htx m hm')
  · by_cases hm' : m'.form.Readable
    · rw [m'.key_read htx hm'] at h
      exact absurd h (m.key_unread_ne htx m' hm)
    · obtain ⟨s, hkey, hends⟩ := m.key_unread htx hm
      obtain ⟨s', hkey', hends'⟩ := m'.key_unread htx hm'
      rw [hkey, hkey'] at h
      rw [← append_left_cancel h] at hends'
      exact hends.unique (m.lower_noOpening htx) (m'.lower_noOpening htx)
        hends'

end Keys

-- =============================================================== one person

section OnePerson

variable {tx : Texts}

/-- A form is parsed to `lower(e)`, and has the key of `e`, just when it
is bare or the text before the bracket, stripped, is not empty and has no
newline. Two addresses differ in their keys in any form. -/
theorem one_person_iff (htx : tx.Lowers) (m m' : AddressText) :
    ((parseEmailAddress tx m.raw).2 = tx.lower m.spec ↔ m.form.Readable)
      ∧ (m.key tx = "email:" ++ tx.lower m.spec ↔ m.form.Readable)
      ∧ (tx.lower m.spec ≠ tx.lower m'.spec → m.key tx ≠ m'.key tx) :=
  ⟨m.email_iff htx, m.key_iff htx,
    fun hne hkey => hne (m.key_injective htx m' hkey)⟩

/-- ` Ana <ANA@firm.es>`. -/
def anaNamed : AddressText where
  before := " "
  form := .named "Ana"
  spec := "ANA@firm.es"
  after := ""
  beforeSpaces := by decide
  isSpec := ⟨by decide, dark_of_all (by decide), by decide, by decide⟩
  noBracket p hp := by
    cases hp
    decide
  afterSpaces := by decide

/-- `<ana@firm.es>`. -/
def anaAngle : AddressText where
  before := ""
  form := .angle
  spec := "ana@firm.es"
  after := ""
  beforeSpaces := by decide
  isSpec := ⟨by decide, dark_of_all (by decide), by decide, by decide⟩
  noBracket p hp := by
    cases hp
    decide
  afterSpaces := by decide

theorem ana_one_person :
    ((parseEmailAddress .sample anaNamed.raw).2
          = Texts.sample.lower anaNamed.spec ↔ anaNamed.form.Readable)
      ∧ (anaNamed.key .sample
            = "email:" ++ Texts.sample.lower anaNamed.spec
          ↔ anaNamed.form.Readable)
      ∧ (Texts.sample.lower anaNamed.spec
            ≠ Texts.sample.lower anaAngle.spec →
          anaNamed.key .sample ≠ anaAngle.key .sample) :=
  one_person_iff sample_lowers anaNamed anaAngle

/-- The brackets stay on `<ana@firm.es>`, who becomes another person. -/
theorem angle_another_person :
    ¬∀ tx : Texts, tx.Lowers → ∀ m m' : AddressText,
      (parseEmailAddress tx m.raw).2 = tx.lower m.spec
        ∧ (tx.lower m.spec = tx.lower m'.spec → m.key tx = m'.key tx) := by
  intro h
  have hemail := (h .sample sample_lowers anaAngle anaNamed).1
  exact absurd hemail (by decide)

end OnePerson

end LegalBot.Memory
