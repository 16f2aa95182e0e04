/-
A recipient header and what `_gmail_to_raw` and `parse_email_address`
make of it.

The header is rendered the way `email.utils.formataddr` does: the address
alone without a name, else `name <address>`, the name in quotes with `\`
and `"` escaped when it has a special. Reading it splits at every comma,
quoted or not, so a name with a comma gives two pieces where there is one
mailbox (`pieces_comma_name`). Without one the pieces are the rendered
mailboxes, and each is read when what is before its bracket is passable:
`recipients_iff`.
-/
import LegalBot.Memory.Addresses
import LegalBot.Providers.Gmail

namespace LegalBot.Gmail

open Mail (RawMessage)
open Memory (Texts Spaces Closed Passable Bracketed bracketed
  parseEmailAddress)
open Providers (memberText)

-- ================================================================ rendering

/-- The characters for which a name is quoted. -/
def isSpecial (c : Char) : Bool :=
  [']', '[', '\\', '(', ')', '<', '>', '@', ',', ':', ';', '"', '.'].contains c

/-- The escapes of a quoted name. -/
def escapeName (cs : List Char) : List Char :=
  cs.flatMap fun c => if c = '\\' ∨ c = '"' then ['\\', c] else [c]

/-- A mailbox of a header. -/
structure Recipient where
  name : String
  spec : String
  nonempty : spec ≠ ""
  trimmed : strip spec = spec
  noComma : ',' ∉ spec.toList
  noOpening : '<' ∉ spec.toList
  noClosing : '>' ∉ spec.toList

def Recipient.quoted (m : Recipient) : Bool := m.name.toList.any isSpecial

/-- The name as the header has it. -/
def Recipient.phrase (m : Recipient) : List Char :=
  if m.quoted then '"' :: (escapeName m.name.toList ++ ['"'])
  else m.name.toList

def Recipient.render (m : Recipient) : String :=
  if m.name = "" then m.spec
  else String.ofList m.phrase ++ " <" ++ m.spec ++ ">"

/-- The value of the header. -/
def renderList (ms : List Recipient) : String :=
  ", ".intercalate (ms.map Recipient.render)

/-- The headers with recipients. -/
inductive RecipientField where
  | toAddrs | ccAddrs | bccAddrs
  deriving DecidableEq, Repr

def RecipientField.key : RecipientField → String
  | .toAddrs => "to"
  | .ccAddrs => "cc"
  | .bccAddrs => "bcc"

/-- The column of the message. -/
def RecipientField.addrs (raw : RawMessage) : RecipientField → List String
  | .toAddrs => raw.toAddrs
  | .ccAddrs => raw.ccAddrs
  | .bccAddrs => raw.bccAddrs

/-- The name has no comma. There may be none; an unquoted one has more
than white space, and a newline only at its ends; a quoted one has no
newline, and a `>` after each `<`. -/
def Recipient.Decodes (m : Recipient) : Prop :=
  ',' ∉ m.name.toList
    ∧ (m.name = ""
      ∨ if m.quoted then '\n' ∉ m.name.toList ∧ Closed m.name.toList
        else stripChars m.name.toList ≠ []
          ∧ '\n' ∉ stripChars m.name.toList)

-- =================================================================== pieces

/-- The pieces of a header, stripped, that are not blank. -/
def pieces (cs : List Char) : List (List Char) :=
  ((cs.splitOn ',').map stripChars).filter (· ≠ [])

section Pieces

variable {a b cs : List Char} {c : Char} {m : Recipient}

theorem splitAddrs_eq (value : String) :
    splitAddrs (some value) = (pieces value.toList).map String.ofList := by
  unfold splitAddrs pieces
  rw [Option.getD_some]
  induction value.toList.splitOn ',' with
  | nil => rfl
  | cons p ps ih =>
      rw [List.map_cons, List.map_cons]
      have hp : strip (String.ofList p) = String.ofList (stripChars p) := by
        rw [strip, String.toList_ofList]
      by_cases hempty : stripChars p = []
      · rw [List.filter_cons_of_neg (by simp [hp, hempty]),
          List.filter_cons_of_neg (by simp [hempty]), ih]
      · have hne : String.ofList (stripChars p) ≠ "" := fun h => hempty (by
          have := congrArg String.toList h
          simpa using this)
        rw [List.filter_cons_of_pos (by simp [hp, hne]),
          List.filter_cons_of_pos (by simp [hempty]), List.map_cons, ih, hp]

theorem pieces_comma : pieces (a ++ ',' :: b) = pieces a ++ pieces b := by
  unfold pieces
  rw [List.splitOn_append_cons_self, List.map_append, List.filter_append]

/-- The blank after a comma is stripped. -/
theorem pieces_blank : pieces (' ' :: b) = pieces b := by
  unfold pieces
  obtain ⟨p, ps, hsplit⟩ :=
    List.exists_cons_of_ne_nil (List.splitOn_ne_nil ',' b)
  have hblank : stripChars (' ' :: p) = stripChars p :=
    Memory.stripChars_left (v := [' ']) (by decide)
  rw [List.splitOn_cons_eq_if_modifyHead, if_neg (by decide), hsplit,
    List.modifyHead_cons, List.map_cons, List.map_cons, hblank]

theorem pieces_one (hcomma : ',' ∉ cs) (hne : stripChars cs ≠ []) :
    pieces cs = [stripChars cs] := by
  unfold pieces
  rw [List.splitOn_eq_singleton hcomma, List.map_singleton,
    List.filter_cons_of_pos (by simp [hne]), List.filter_nil]

theorem mem_splitOn (hc : c ∈ cs) (hcomma : c ≠ ',') :
    ∃ p ∈ cs.splitOn ',', c ∈ p := by
  induction cs with
  | nil => cases hc
  | cons d cs ih =>
      obtain ⟨p, ps, hsplit⟩ :=
        List.exists_cons_of_ne_nil (List.splitOn_ne_nil ',' cs)
      rw [List.splitOn_cons_eq_if_modifyHead]
      by_cases hd : d = ','
      · rw [if_pos (by simp [hd])]
        rcases List.mem_cons.mp hc with rfl | hc
        · exact absurd hd hcomma
        · obtain ⟨q, hq, hcq⟩ := ih hc
          exact ⟨q, List.mem_cons_of_mem _ hq, hcq⟩
      · rw [if_neg (by simp [hd]), hsplit, List.modifyHead_cons]
        rcases List.mem_cons.mp hc with rfl | hc
        · exact ⟨_, List.mem_cons_self, List.mem_cons_self⟩
        · obtain ⟨q, hq, hcq⟩ := ih hc
          rw [hsplit] at hq
          rcases List.mem_cons.mp hq with rfl | hq
          · exact ⟨_, List.mem_cons_self, List.mem_cons_of_mem _ hcq⟩
          · exact ⟨q, List.mem_cons_of_mem _ hq, hcq⟩

/-- What is neither a comma nor a space is in some piece. -/
theorem pieces_ne_nil (hc : c ∈ cs) (hcomma : c ≠ ',')
    (hdark : isSpace c = false) : pieces cs ≠ [] := by
  obtain ⟨p, hp, hcp⟩ := mem_splitOn hc hcomma
  have hmem := mem_stripChars hcp hdark
  refine List.ne_nil_of_mem (List.mem_filter.mpr
    ⟨List.mem_map_of_mem hp, ?_⟩)
  rw [decide_eq_true_eq]
  exact List.ne_nil_of_mem hmem

theorem pieces_renderList (ms : List Recipient) :
    pieces (renderList ms).toList
      = ms.flatMap fun m => pieces m.render.toList := by
  unfold renderList
  induction ms with
  | nil => rfl
  | cons m ms ih =>
      cases ms with
      | nil =>
          rw [List.map_singleton, String.intercalate_singleton,
            List.flatMap_singleton]
      | cons m' ms =>
          rw [List.map_cons, List.map_cons, String.intercalate_cons_cons,
            ← List.map_cons, List.flatMap_cons, ← ih]
          have hchars : (m.render ++ ", "
              ++ ", ".intercalate ((m' :: ms).map Recipient.render)).toList
              = m.render.toList ++ ',' :: (' ' ::
                (", ".intercalate ((m' :: ms).map Recipient.render)).toList) := by
            simp
          rw [hchars, pieces_comma, pieces_blank]

end Pieces

-- ================================================================ mailboxes

section Mailboxes

variable {tx : Texts} {m : Recipient} {cs : List Char} {c : Char}

theorem mem_escapeName (hc : c ≠ '\\') :
    c ∈ escapeName cs ↔ c ∈ cs := by
  unfold escapeName
  rw [List.mem_flatMap]
  constructor
  · rintro ⟨d, hd, hmem⟩
    split at hmem
    · rcases List.mem_cons.mp hmem with hmem | hmem
      · exact absurd hmem hc
      · rw [List.mem_singleton.mp hmem]
        exact hd
    · rw [List.mem_singleton.mp hmem]
      exact hd
  · intro hmem
    refine ⟨c, hmem, ?_⟩
    split
    · exact List.mem_cons_of_mem _ List.mem_cons_self
    · exact List.mem_cons_self

/-- The escapes and the quote neither open nor close a bracket. -/
theorem closed_escapeName (cs : List Char) :
    Closed (escapeName cs ++ ['"']) ↔ Closed cs := by
  have hclose : ∀ cs : List Char, '>' ∈ escapeName cs ++ ['"'] ↔ '>' ∈ cs := by
    intro cs
    rw [List.mem_append, mem_escapeName (by decide)]
    simp
  induction cs with
  | nil => simp [escapeName, Closed]
  | cons c cs ih =>
      by_cases hc : c = '\\' ∨ c = '"'
      · have hopen : c ≠ '<' := by
          rintro rfl
          revert hc
          decide
        have hcons : escapeName (c :: cs) ++ ['"']
            = '\\' :: c :: (escapeName cs ++ ['"']) := by
          simp [escapeName, hc]
        rw [hcons]
        simp [Closed, ih, hopen]
      · have hcons : escapeName (c :: cs) ++ ['"']
            = c :: (escapeName cs ++ ['"']) := by
          simp [escapeName, hc]
        rw [hcons]
        simp only [Closed, ih, hclose]

theorem Recipient.spec_ne (m : Recipient) : m.spec.toList ≠ [] :=
  fun hempty => m.nonempty (String.ext hempty)

theorem Recipient.spec_trimmed (m : Recipient) :
    stripChars m.spec.toList = m.spec.toList := by
  have htrim := congrArg String.toList m.trimmed
  rwa [strip, String.toList_ofList] at htrim

theorem Recipient.render_toList (hname : m.name ≠ "") :
    m.render.toList = m.phrase ++ bracketed [' '] m.spec.toList := by
  unfold Recipient.render
  rw [if_neg hname]
  simp [bracketed]

theorem Recipient.bracketed (hname : m.name ≠ "") :
    Bracketed m.render m.phrase m.spec.toList where
  text := ⟨[], [' '], [], by decide, by decide, by decide, by
    rw [Recipient.render_toList hname]
    simp⟩
  nonempty := m.spec_ne
  trimmed := m.spec_trimmed
  noOpening := m.noOpening
  noClosing := m.noClosing

/-- A quoted name begins and ends in its quotes. -/
theorem Recipient.passable_quoted (hquoted : m.quoted = true) :
    Passable (stripChars m.phrase)
      ↔ '\n' ∉ m.name.toList ∧ Closed m.name.toList := by
  have hphrase : stripChars m.phrase
      = '"' :: (escapeName m.name.toList ++ ['"']) := by
    unfold Recipient.phrase
    rw [if_pos hquoted]
    exact Memory.stripChars_ends (by decide) (by decide)
  have hline : '\n' ∈ '"' :: (escapeName m.name.toList ++ ['"'])
      ↔ '\n' ∈ m.name.toList := by
    rw [List.mem_cons, List.mem_append, mem_escapeName (by decide)]
    simp
  rw [hphrase, Passable, List.tail_cons, closed_escapeName, hline]
  simp

/-- An unquoted one has no bracket. -/
theorem Recipient.passable_plain (hquoted : m.quoted = false) :
    Passable (stripChars m.phrase)
      ↔ stripChars m.name.toList ≠ [] ∧ '\n' ∉ stripChars m.name.toList := by
  have hphrase : m.phrase = m.name.toList := by
    unfold Recipient.phrase
    rw [hquoted, if_neg Bool.false_ne_true]
  have hopen : '<' ∉ m.name.toList := by
    intro hmem
    have hany : m.quoted = true := List.any_eq_true.mpr ⟨'<', hmem, by decide⟩
    rw [hquoted] at hany
    cases hany
  have hclosed : Closed (stripChars m.name.toList).tail :=
    Memory.closed_of_absent fun hmem => hopen
      (Memory.mem_of_mem_stripChars (List.mem_of_mem_tail hmem))
  rw [hphrase, Passable]
  exact ⟨fun h => ⟨h.1, h.2.1⟩, fun h => ⟨h.1, h.2, hclosed⟩⟩

/-- Reading a mailbox that is a piece of its own. -/
theorem Recipient.email_iff (htx : tx.Lowers) (m : Recipient)
    (hcomma : ',' ∉ m.name.toList) :
    (parseEmailAddress tx m.render).2 = tx.lower m.spec ↔ m.Decodes := by
  by_cases hname : m.name = ""
  · have hrender : m.render = m.spec := by rw [Recipient.render, if_pos hname]
    refine ⟨fun _ => ⟨hcomma, .inl hname⟩, fun _ => ?_⟩
    have hne : stripChars m.spec.toList ≠ [] := by
      rw [m.spec_trimmed]
      exact m.spec_ne
    rw [hrender, Memory.parse_bare hne m.noOpening, m.trimmed]
  · have hiff := (Recipient.bracketed hname).email_iff htx
    rw [String.ofList_toList] at hiff
    rw [hiff, Recipient.Decodes]
    cases hquoted : m.quoted with
    | true =>
        rw [Recipient.passable_quoted hquoted, if_pos rfl]
        simp [hcomma, hname]
    | false =>
        rw [Recipient.passable_plain hquoted, if_neg Bool.false_ne_true]
        simp [hcomma, hname]

/-- A mailbox without a comma is one piece. -/
theorem Recipient.pieces_plain (hcomma : ',' ∉ m.name.toList) :
    pieces m.render.toList = [stripChars m.render.toList] := by
  by_cases hname : m.name = ""
  · have hrender : m.render = m.spec := by rw [Recipient.render, if_pos hname]
    rw [hrender]
    refine pieces_one m.noComma ?_
    rw [m.spec_trimmed]
    exact m.spec_ne
  · refine pieces_one ?_ (Recipient.bracketed hname).stripped_ne
    rw [Recipient.render_toList hname, List.mem_append, not_or]
    constructor
    · unfold Recipient.phrase
      split
      · rw [List.mem_cons, List.mem_append, mem_escapeName (by decide)]
        simp [hcomma]
      · exact hcomma
    · simp [Memory.bracketed, m.noComma]

/-- A mailbox with a comma in its name is more than one. -/
theorem Recipient.pieces_comma_name (hcomma : ',' ∈ m.name.toList) :
    1 < (pieces m.render.toList).length := by
  have hname : m.name ≠ "" := by
    intro hempty
    rw [hempty] at hcomma
    cases hcomma
  have hquoted : m.quoted = true :=
    List.any_eq_true.mpr ⟨',', hcomma, by decide⟩
  obtain ⟨a, b, hsplit⟩ :=
    List.append_of_mem ((mem_escapeName (by decide)).mpr hcomma)
  have hchars : m.render.toList
      = ('"' :: a) ++ ',' :: (b ++ ('"' :: Memory.bracketed [' '] m.spec.toList)) := by
    rw [Recipient.render_toList hname, Recipient.phrase, if_pos hquoted, hsplit]
    simp
  have hfront : pieces ('"' :: a) ≠ [] :=
    pieces_ne_nil List.mem_cons_self (by decide) (by decide)
  have hback : pieces (b ++ ('"' :: Memory.bracketed [' '] m.spec.toList)) ≠ [] :=
    pieces_ne_nil (c := '"') (by simp) (by decide) (by decide)
  rw [hchars, pieces_comma, List.length_append]
  have h1 := List.length_pos_of_ne_nil hfront
  have h2 := List.length_pos_of_ne_nil hback
  omega

end Mailboxes

-- ================================================================== headers

/-- The last header of the name has the value. -/
def HasHeader (tx : Texts) (msg : Message) (key value : String) : Prop :=
  ∃ before h after,
    (msg.payload.getD .empty).headers = before ++ h :: after
      ∧ tx.lower (h.name.getD "") = key ∧ h.value = some value
      ∧ ∀ g ∈ after, tx.lower (g.name.getD "") ≠ key

section Headers

variable {lib : Library} {tx : Texts} {msg : Message} {raw : RawMessage}
  {ms : List Recipient} {hs : List Header} {key value : String}

theorem gmailHeaders_concat (h : Header) :
    gmailHeaders tx (hs ++ [h])
      = Json.setMember (gmailHeaders tx hs) (tx.lower (h.name.getD ""))
        (.str (h.value.getD "")) := by
  unfold gmailHeaders
  rw [List.foldl_append]
  rfl

/-- The headers after the last one of the name leave it. -/
theorem getMember_gmailHeaders {before after : List Header} {h : Header}
    (hname : tx.lower (h.name.getD "") = key) (hvalue : h.value = some value)
    (hafter : ∀ g ∈ after, tx.lower (g.name.getD "") ≠ key) :
    Json.getMember (gmailHeaders tx (before ++ h :: after)) key
      = some (.str value) := by
  induction after using List.reverseRecOn with
  | nil =>
      rw [gmailHeaders_concat, Json.getMember_setMember, if_pos hname,
        hvalue, Option.getD_some]
  | append_singleton after g ih =>
      have hg : tx.lower (g.name.getD "") ≠ key :=
        hafter g (List.mem_append_right _ List.mem_cons_self)
      rw [← List.cons_append, ← List.append_assoc, gmailHeaders_concat,
        Json.getMember_setMember, if_neg hg]
      exact ih fun t ht => hafter t (List.mem_append_left _ ht)

theorem memberText_gmailHeaders (h : HasHeader tx msg key value) :
    memberText (gmailHeaders tx (msg.payload.getD .empty).headers) key
      = some value := by
  obtain ⟨before, header, after, hall, hname, hvalue, hafter⟩ := h
  rw [hall, memberText, getMember_gmailHeaders hname hvalue hafter]

theorem addrs_gmailToRaw (field : RecipientField)
    (hraw : gmailToRaw lib tx msg = some raw) :
    field.addrs raw = splitAddrs (memberText
      (gmailHeaders tx (msg.payload.getD .empty).headers) field.key) := by
  simp only [gmailToRaw, Option.bind_eq_bind, Option.bind_eq_some_iff,
    Option.some.injEq] at hraw
  obtain ⟨body, -, receivedAt, -, id, -, rfl⟩ := hraw
  cases field with
  | toAddrs => rfl
  | ccAddrs => rfl
  | bccAddrs => rfl

theorem parse_strip (a : String) :
    parseEmailAddress tx (strip a) = parseEmailAddress tx a := by
  unfold parseEmailAddress
  rw [strip_strip]

/-- As many pieces as mailboxes is one piece for each. -/
theorem length_flatMap_eq {α β : Type} {f : α → List β} {xs : List α}
    (hpos : ∀ x ∈ xs, 0 < (f x).length)
    (h : (xs.flatMap f).length = xs.length) :
    ∀ x ∈ xs, (f x).length = 1 := by
  have hle : ∀ ys : List α, (∀ x ∈ ys, 0 < (f x).length) →
      ys.length ≤ (ys.flatMap f).length := by
    intro ys hys
    induction ys with
    | nil => exact Nat.zero_le _
    | cons y ys ih =>
        rw [List.flatMap_cons, List.length_append, List.length_cons]
        have hy := hys y List.mem_cons_self
        have hrest := ih fun x hx => hys x (List.mem_cons_of_mem _ hx)
        omega
  induction xs with
  | nil => exact fun x hx => by cases hx
  | cons y ys ih =>
      rw [List.flatMap_cons, List.length_append, List.length_cons] at h
      have hy := hpos y List.mem_cons_self
      have hys : ∀ x ∈ ys, 0 < (f x).length :=
        fun x hx => hpos x (List.mem_cons_of_mem _ hx)
      have hrest := hle ys hys
      intro x hx
      rcases List.mem_cons.mp hx with rfl | hx
      · omega
      · exact ih hys (by omega) x hx

/-- A name without a comma in every mailbox makes the pieces the
mailboxes. -/
theorem pieces_plain_list (h : ∀ m ∈ ms, ',' ∉ m.name.toList) :
    pieces (renderList ms).toList
      = ms.map fun m => stripChars m.render.toList := by
  rw [pieces_renderList, List.map_eq_flatMap]
  exact List.flatMap_congr fun m hm => Recipient.pieces_plain (h m hm)

theorem emails_iff (htx : tx.Lowers) (ms : List Recipient) :
    (splitAddrs (some (renderList ms))).map
        (fun a => (parseEmailAddress tx a).2)
      = ms.map (fun m => tx.lower m.spec) ↔ ∀ m ∈ ms, m.Decodes := by
  have hplain : (∀ m ∈ ms, ',' ∉ m.name.toList) →
      ((splitAddrs (some (renderList ms))).map
          (fun a => (parseEmailAddress tx a).2)
        = ms.map (fun m => tx.lower m.spec) ↔ ∀ m ∈ ms, m.Decodes) := by
    intro hcomma
    rw [splitAddrs_eq, pieces_plain_list hcomma, List.map_map, List.map_map,
      List.map_inj_left]
    refine forall₂_congr fun m hm => ?_
    rw [← Recipient.email_iff htx m (hcomma m hm), ← parse_strip m.render]
    rfl
  constructor
  · intro heq
    have hpos : ∀ m ∈ ms, 0 < (pieces m.render.toList).length := by
      intro m _
      by_cases hm : ',' ∈ m.name.toList
      · exact Nat.lt_of_succ_lt (Recipient.pieces_comma_name hm)
      · rw [Recipient.pieces_plain hm]
        exact Nat.one_pos
    have hlen := congrArg List.length heq
    rw [List.length_map, List.length_map, splitAddrs_eq, List.length_map,
      pieces_renderList] at hlen
    have hcomma : ∀ m ∈ ms, ',' ∉ m.name.toList := by
      intro m hm hmem
      have hone := length_flatMap_eq hpos hlen m hm
      exact absurd (Recipient.pieces_comma_name hmem) (by omega)
    exact (hplain hcomma).mp heq
  · intro h
    exact (hplain fun m hm => (h m hm).1).mpr h

/-- A recipient header gives the lower-cased addr-specs of its mailboxes,
in order, just when every mailbox decodes. -/
theorem recipients_iff (htx : tx.Lowers) (field : RecipientField)
    (hheader : HasHeader tx msg field.key (renderList ms))
    (hraw : gmailToRaw lib tx msg = some raw) :
    (field.addrs raw).map (fun a => (parseEmailAddress tx a).2)
        = ms.map (fun m => tx.lower m.spec)
      ↔ ∀ m ∈ ms, m.Decodes := by
  rw [addrs_gmailToRaw field hraw, memberText_gmailHeaders hheader]
  exact emails_iff htx ms

/-- A message with a `To` header. -/
def toMessage (value : String) : Message :=
  { id := some "m1"
    threadId := none
    payload := some (.mk none none [⟨some "To", some value⟩]
      ⟨none, none, none⟩ [])
    internalDate := none
    snippet := none }

theorem toMessage_returns (value : String) :
    ∃ raw, gmailToRaw .bare .sample (toMessage value) = some raw :=
  ⟨_, rfl⟩

theorem toMessage_header (value : String) :
    HasHeader .sample (toMessage value) RecipientField.toAddrs.key value := by
  have hname : Texts.sample.lower "To" = "to" := by decide +kernel
  refine ⟨[], ⟨some "To", some value⟩, [], rfl, hname, rfl, fun g hg => ?_⟩
  cases hg

/-- `Ana <ANA@firm.es>`. -/
def anaRecipient : Recipient where
  name := "Ana"
  spec := "ANA@firm.es"
  nonempty := by decide
  trimmed := by decide +kernel
  noComma := by decide
  noOpening := by decide
  noClosing := by decide

/-- `"Eva (Legal)" <eva@firm.es>`. -/
def evaRecipient : Recipient where
  name := "Eva (Legal)"
  spec := "eva@firm.es"
  nonempty := by decide
  trimmed := by decide +kernel
  noComma := by decide
  noOpening := by decide
  noClosing := by decide

/-- `"Ruiz, Leo" <leo@firm.es>`. -/
def leoRecipient : Recipient where
  name := "Ruiz, Leo"
  spec := "leo@firm.es"
  nonempty := by decide
  trimmed := by decide +kernel
  noComma := by decide
  noOpening := by decide
  noClosing := by decide

theorem ana_eva_decode :
    ∃ raw, gmailToRaw .bare .sample
        (toMessage (renderList [anaRecipient, evaRecipient])) = some raw
      ∧ (raw.toAddrs.map (fun a => (parseEmailAddress .sample a).2)
          = [anaRecipient, evaRecipient].map
            (fun m => Texts.sample.lower m.spec)
        ↔ ∀ m ∈ [anaRecipient, evaRecipient], m.Decodes) := by
  obtain ⟨raw, hraw⟩ :=
    toMessage_returns (renderList [anaRecipient, evaRecipient])
  exact ⟨raw, hraw, recipients_iff Memory.sample_lowers .toAddrs
    (toMessage_header _) hraw⟩

/-- `Ruiz, Leo` is split into two addresses. -/
theorem leo_split :
    ¬∀ (lib : Library) (tx : Texts), tx.Lowers →
      ∀ (field : RecipientField) (msg : Message) (raw : RawMessage)
        (ms : List Recipient), HasHeader tx msg field.key (renderList ms) →
        gmailToRaw lib tx msg = some raw →
        (field.addrs raw).map (fun a => (parseEmailAddress tx a).2)
          = ms.map (fun m => tx.lower m.spec) := by
  intro h
  obtain ⟨raw, hraw⟩ := toMessage_returns (renderList [leoRecipient])
  have hemails := h .bare .sample Memory.sample_lowers .toAddrs _ raw
    [leoRecipient] (toMessage_header _) hraw
  rw [addrs_gmailToRaw .toAddrs hraw,
    memberText_gmailHeaders (toMessage_header _)] at hemails
  exact absurd hemails (by decide +kernel)

end Headers

end LegalBot.Gmail
