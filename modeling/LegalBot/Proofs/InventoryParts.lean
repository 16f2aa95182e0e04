/-
What an inventory is made of, and what is made of an inventory that is
read back.

# Parts

An inventory is assembled from the columns of the email, from the fields
that were classified before and from the rows (`assembled`). The
classified fields are no other member's, so each member has one source
(`head_other`, `head_field`, `head_filled`).

# A second time

Read back, a member may have changed as a `Reshaping` allows, which keeps
it null or not, true or false. The fields that are taken from such an
inventory are its own, so reshaped; a summary that was filled in is not
blank and is not filled in again (`head_again`). The other members do not
depend on them, but for the overview, which prints them
(`assembled_again`).
-/
import LegalBot.Agents.ExtractInventory
import LegalBot.Json.Members

namespace LegalBot.Inventory

open Json (getMember setMember truthy assignAll)
open Memory (Attributes getOr takeChars)

-- ===================================================================== parts

/-- What the email contributes. -/
def emailMembers (email : SessionEmail) : Attributes :=
  [("subject", textOrNull email.subject),
    ("from_addr", textOrNull email.fromAddr),
    ("received_at", textOrNull email.receivedAt),
    ("body_preview", .str (takeChars previewMax email.bodyText)),
    ("body_chars", .int email.bodyText.length),
    ("message_id", textOrNull email.messageId),
    ("thread_id", textOrNull email.threadId),
    ("attachment_count", .int email.attachments.length)]

/-- What a blank summary is filled with. -/
def bodySummary (email : SessionEmail) : Json :=
  .str (takeChars 280 (strip email.bodyText))

/-- The summary is blank and the body is not. -/
def Fills (email : SessionEmail) (classification : Attributes) : Prop :=
  ¬ truthy (getOr classification "body_summary" .null)
    ∧ strip email.bodyText ≠ ""

/-- The inventory but for its overview. -/
def detailed (email : SessionEmail) (classification : Attributes)
    (rows : List Row) (threadRows : List ThreadRow) : Attributes :=
  let inventory := setMember (inventoryHead email classification)
    "attachments" (.arr (rows.map Row.json))
  let inventory := setMember inventory "attachments_processed"
    (.int (rows.countP (·.keys.ok)))
  let inventory := setMember inventory "attachments_failed"
    (.int (rows.countP fun row => ¬ row.keys.ok))
  setMember inventory "thread_attachments"
    (.arr (threadRows.map ThreadRow.json))

/-- The inventory. -/
def assembled (rt : Runtime) (email : SessionEmail)
    (classification : Attributes) (rows : List Row)
    (threadRows : List ThreadRow) : Attributes :=
  let inventory := detailed email classification rows threadRows
  setMember inventory "provided_overview"
    (.str (buildProvidedOverview rt inventory rows threadRows))

/-- The fields of a classification: some of the five, each once, and none
of them null. -/
structure Classified (classification : Attributes) : Prop where
  once : (classification.map Prod.fst).Nodup
  known : ∀ k v, getMember classification k = some v →
    k ∈ classificationFields
  present : ∀ k, getMember classification k ≠ some .null

-- ============================================================ classifications

section Classifications

variable {k : String} {v : Json} {base existing : Attributes}

theorem merged_eq (base extra : Attributes) :
    merged base extra = assignAll base extra := by
  unfold merged
  induction extra generalizing base with
  | nil => rfl
  | cons m rest ih => exact ih _

/-- The members of some fields, one after the other. -/
theorem getMember_fields {values : String → Option Json}
    {fields : List String} :
    getMember (fields.filterMap fun f => (values f).map fun v => (f, v)) k
      = if k ∈ fields then values k else none := by
  induction fields with
  | nil => rfl
  | cons f rest ih =>
      rw [List.filterMap_cons]
      by_cases hf : f = k
      · subst hf
        rw [if_pos List.mem_cons_self]
        cases hv : values f with
        | some v => exact (Json.getMember_cons).trans (if_pos rfl)
        | none =>
            show getMember (rest.filterMap _) f = none
            rw [ih, hv, ite_self]
      · have hmem : k ∈ f :: rest ↔ k ∈ rest := by simp [Ne.symm hf]
        simp only [hmem]
        cases values f with
        | some v => exact ((Json.getMember_cons).trans (if_neg hf)).trans ih
        | none => exact ih

theorem fields_sublist {values : String → Option Json}
    {fields : List String} :
    ((fields.filterMap fun f =>
      (values f).map fun v => (f, v)).map Prod.fst).Sublist fields := by
  induction fields with
  | nil => exact .slnil
  | cons f rest ih =>
      rw [List.filterMap_cons]
      cases values f with
      | some v => exact ih.cons_cons f
      | none => exact ih.cons f

/-- A field is kept if it is not null. -/
theorem classificationFromExisting_eq (existing : Attributes) :
    classificationFromExisting existing
      = classificationFields.filterMap fun f =>
        ((getMember existing f).filter (· ≠ .null)).map fun v => (f, v) := by
  unfold classificationFromExisting
  refine List.filterMap_congr fun f _ => ?_
  cases getMember existing f with
  | none => rfl
  | some v => cases v <;> rfl

theorem getMember_existing (hk : k ∈ classificationFields) :
    getMember (classificationFromExisting existing) k
      = (getMember existing k).filter (· ≠ .null) := by
  rw [classificationFromExisting_eq, getMember_fields, if_pos hk]

theorem classified_nil : Classified [] where
  once := List.nodup_nil
  known := fun _ _ h => by cases h
  present := fun _ h => by cases h

theorem classified_existing (existing : Attributes) :
    Classified (classificationFromExisting existing) where
  once := by
    rw [classificationFromExisting_eq]
    exact fields_sublist.nodup (by decide)
  known := fun k v h => by
    rw [classificationFromExisting_eq, getMember_fields] at h
    by_contra hk
    rw [if_neg hk] at h
    cases h
  present := fun k h => by
    rw [classificationFromExisting_eq, getMember_fields] at h
    split at h
    · have hnull := Option.filter_eq_some_iff.mp h
      simp at hnull
    · cases h

end Classifications

-- ====================================================================== head

section Head

variable {email : SessionEmail} {c c' : Attributes} {k : String}
  {g : Json → Json}

/-- A classified field is no column of the email. -/
theorem emailMembers_field (hk : k ∈ classificationFields) :
    getMember (emailMembers email) k = none := by
  have hnew : ∀ f ∈ classificationFields,
      f ∉ ["subject", "from_addr", "received_at", "body_preview",
        "body_chars", "message_id", "thread_id", "attachment_count"] := by
    decide
  exact Json.getMember_eq_none.mpr (hnew k hk)

theorem getMember_base (hc : Classified c) :
    getMember (merged (emailMembers email) c) k
      = (getMember c k).or (getMember (emailMembers email) k) := by
  rw [merged_eq, Json.getMember_assignAll hc.once]

theorem base_field (hc : Classified c) (hk : k ∈ classificationFields) :
    getMember (merged (emailMembers email) c) k = getMember c k := by
  rw [getMember_base hc, emailMembers_field hk, Option.or_none]

/-- The head, with the summary filled in or not. -/
theorem inventoryHead_eq (hc : Classified c) :
    (Fills email c ∧ inventoryHead email c
        = setMember (merged (emailMembers email) c) "body_summary"
          (bodySummary email))
      ∨ (¬ Fills email c
        ∧ inventoryHead email c = merged (emailMembers email) c) := by
  have hsummary : getOr (merged (emailMembers email) c) "body_summary" .null
      = getOr c "body_summary" .null := by
    unfold getOr
    rw [base_field hc (by decide)]
  by_cases hfills : Fills email c
  · refine Or.inl ⟨hfills, if_pos ?_⟩
    exact ⟨(congrArg (¬ truthy · = true) hsummary).mpr hfills.1, hfills.2⟩
  · refine Or.inr ⟨hfills, if_neg fun h => hfills ⟨?_, h.2⟩⟩
    exact (congrArg (¬ truthy · = true) hsummary).mp h.1

/-- Other members are those of the email. -/
theorem head_other (hc : Classified c) (hk : k ∉ classificationFields) :
    getMember (inventoryHead email c) k
      = getMember (emailMembers email) k := by
  have hnone : getMember c k = none :=
    Option.eq_none_iff_forall_ne_some.mpr fun v hv => hk (hc.known k v hv)
  have hne : "body_summary" ≠ k := fun h => hk (h ▸ by decide)
  rcases inventoryHead_eq hc with ⟨-, hhead⟩ | ⟨-, hhead⟩
  · rw [hhead, Json.getMember_setMember, if_neg hne, getMember_base hc,
      hnone, Option.none_or]
  · rw [hhead, getMember_base hc, hnone, Option.none_or]

/-- A field is the one that was classified. -/
theorem head_field (hc : Classified c) (hk : k ∈ classificationFields)
    (h : k = "body_summary" → ¬ Fills email c) :
    getMember (inventoryHead email c) k = getMember c k := by
  rcases inventoryHead_eq hc with ⟨hfills, hhead⟩ | ⟨-, hhead⟩
  · rw [hhead, Json.getMember_setMember, if_neg fun e => h e.symm hfills,
      base_field hc hk]
  · rw [hhead, base_field hc hk]

/-- Or it was filled in. -/
theorem head_filled (hc : Classified c) (h : Fills email c) :
    getMember (inventoryHead email c) "body_summary"
      = some (bodySummary email) := by
  rcases inventoryHead_eq hc with ⟨-, hhead⟩ | ⟨hnot, -⟩
  · rw [hhead, Json.getMember_setMember, if_pos rfl]
  · exact absurd h hnot

theorem truthy_bodySummary (h : strip email.bodyText ≠ "") :
    truthy (bodySummary email) = true := by
  have hne : takeChars 280 (strip email.bodyText) ≠ "" := by
    intro hempty
    unfold takeChars at hempty
    rw [String.ofList_eq_empty_iff, List.take_eq_nil_iff] at hempty
    rcases hempty with hzero | hnil
    · cases hzero
    · exact h (String.toList_eq_nil_iff.mp hnil)
  exact bne_iff_ne.mpr hne

/-- No field of the head is null. -/
theorem head_present (hc : Classified c) (hk : k ∈ classificationFields) :
    getMember (inventoryHead email c) k ≠ some .null := by
  by_cases h : k = "body_summary" ∧ Fills email c
  · obtain ⟨rfl, hfills⟩ := h
    rw [head_filled hc hfills]
    intro hnull
    cases hnull
  · rw [head_field hc hk fun e hfills => h ⟨e, hfills⟩]
    exact hc.present k

/-- Where the body is not blank the summary is not. -/
theorem head_summary (hc : Classified c) (h : strip email.bodyText ≠ "") :
    ∃ v, getMember (inventoryHead email c) "body_summary" = some v
      ∧ truthy v = true := by
  by_cases hfills : Fills email c
  · exact ⟨_, head_filled hc hfills, truthy_bodySummary h⟩
  · rw [head_field hc (by decide) fun _ => hfills]
    have htrue : truthy (getOr c "body_summary" .null) = true := by
      by_contra hfalse
      exact hfills ⟨hfalse, h⟩
    unfold getOr at htrue
    cases hv : getMember c "body_summary" with
    | none =>
        rw [hv] at htrue
        cases htrue
    | some v =>
        refine ⟨v, rfl, ?_⟩
        by_contra hfalse
        rw [hv] at htrue
        simp only [if_neg hfalse] at htrue
        cases htrue

end Head

-- ============================================================== a second time

/-- A value may come back changed, but as null and as true as it was. -/
structure Reshaping (g : Json → Json) : Prop where
  null : ∀ v, g v = .null ↔ v = .null
  truthy : ∀ v, Json.truthy (g v) = Json.truthy v

/-- The members of a dict that came back. -/
def Reshaped (g : Json → Json) (d d' : Attributes) : Prop :=
  ∀ k, getMember d' k = (getMember d k).map g

section Again

variable {rt : Runtime} {email : SessionEmail} {c c' : Attributes}
  {k : String} {g : Json → Json} {rows : List Row}
  {threadRows : List ThreadRow} {existing d d' : Attributes}

/-- The fields that are taken from what came back. -/
theorem existing_reshaped (hg : Reshaping g)
    (hk : k ∈ classificationFields) (hd : Reshaped g d existing)
    (hpresent : getMember d k ≠ some .null) :
    getMember (classificationFromExisting existing) k
      = (getMember d k).map g := by
  rw [getMember_existing hk, hd k]
  cases hv : getMember d k with
  | none => rfl
  | some v =>
      have hne : g v ≠ .null := fun h =>
        hpresent (hv.trans (congrArg some ((hg.null v).mp h)))
      exact Option.filter_some_pos (by simpa using hne)

/-- With the fields of the head, reshaped, they are not filled in
again. -/
theorem head_again (hg : Reshaping g) (hc : Classified c)
    (hc' : Classified c')
    (hfields : ∀ f ∈ classificationFields, getMember c' f
      = (getMember (inventoryHead email c) f).map g)
    (hk : k ∈ classificationFields) :
    getMember (inventoryHead email c') k
      = (getMember (inventoryHead email c) k).map g := by
  rw [head_field hc' hk, hfields k hk]
  rintro rfl ⟨hblank, hbody⟩
  obtain ⟨v, hv, htrue⟩ := head_summary hc hbody
  refine hblank ?_
  have hgv : getMember c' "body_summary" = some (g v) := by
    rw [hfields _ hk, hv]
    rfl
  have htrue' : truthy (g v) = true := (hg.truthy v).trans htrue
  unfold getOr
  rw [hgv]
  dsimp only
  rw [if_pos htrue']
  exact htrue'

/-- The parts that are set after the head. -/
theorem getMember_detailed (k : String) :
    getMember (detailed email c rows threadRows) k
      = if "thread_attachments" = k then
          some (.arr (threadRows.map ThreadRow.json))
        else if "attachments_failed" = k then
          some (.int (rows.countP fun row => ¬ row.keys.ok))
        else if "attachments_processed" = k then
          some (.int (rows.countP (·.keys.ok)))
        else if "attachments" = k then some (.arr (rows.map Row.json))
        else getMember (inventoryHead email c) k := by
  unfold detailed
  simp only [Json.getMember_setMember]

theorem getMember_assembled (hk : k ≠ "provided_overview") :
    getMember (assembled rt email c rows threadRows) k
      = getMember (detailed email c rows threadRows) k := by
  unfold assembled
  rw [Json.getMember_setMember, if_neg (Ne.symm hk)]

theorem assembled_field (hk : k ∈ classificationFields) :
    getMember (assembled rt email c rows threadRows) k
      = getMember (inventoryHead email c) k := by
  have hnew : ∀ f ∈ classificationFields, "thread_attachments" ≠ f
      ∧ "attachments_failed" ≠ f ∧ "attachments_processed" ≠ f
      ∧ "attachments" ≠ f ∧ f ≠ "provided_overview" := by decide
  obtain ⟨hthread, hfailed, hprocessed, hrows, hoverview⟩ := hnew k hk
  rw [getMember_assembled hoverview, getMember_detailed, if_neg hthread,
    if_neg hfailed, if_neg hprocessed, if_neg hrows]

theorem detailed_congr
    (h : getMember (inventoryHead email c') k
      = getMember (inventoryHead email c) k) :
    getMember (detailed email c' rows threadRows) k
      = getMember (detailed email c rows threadRows) k := by
  rw [getMember_detailed, getMember_detailed, h]

/-- The overview looks members up. -/
theorem overview_congr (h : ∀ k, getMember d' k = getMember d k) :
    buildProvidedOverview rt d' rows threadRows
      = buildProvidedOverview rt d rows threadRows := by
  have hor : ∀ k default, getOr d' k default = getOr d k default := by
    intro k default
    unfold getOr
    rw [h k]
  unfold buildProvidedOverview inventoryText
  simp only [hor]

/-- Assembled from the fields of an inventory that came back: the fields
are as they came back, the other members are the same, and so is the
overview if the fields are. -/
theorem assembled_again (hg : Reshaping g) (hc : Classified c)
    (hd : Reshaped g (assembled rt email c rows threadRows) existing) :
    (∀ f ∈ classificationFields,
      getMember (assembled rt email (classificationFromExisting existing)
        rows threadRows) f
      = (getMember (assembled rt email c rows threadRows) f).map g)
    ∧ (∀ k ∉ classificationFields, k ≠ "provided_overview" →
      getMember (assembled rt email (classificationFromExisting existing)
        rows threadRows) k
      = getMember (assembled rt email c rows threadRows) k)
    ∧ ((∀ f ∈ classificationFields, ∀ v,
        getMember (assembled rt email c rows threadRows) f = some v →
        g v = v) →
      ∀ k, getMember (assembled rt email
          (classificationFromExisting existing) rows threadRows) k
        = getMember (assembled rt email c rows threadRows) k) := by
  have hc' := classified_existing existing
  have hfields : ∀ f ∈ classificationFields,
      getMember (classificationFromExisting existing) f
        = (getMember (inventoryHead email c) f).map g := by
    intro f hf
    have hassembled : getMember (assembled rt email c rows threadRows) f
        = getMember (inventoryHead email c) f := assembled_field hf
    rw [existing_reshaped hg hf hd
      (by rw [hassembled]; exact head_present hc hf), hassembled]
  have hother : ∀ k ∉ classificationFields,
      getMember (inventoryHead email (classificationFromExisting existing))
        k = getMember (inventoryHead email c) k := by
    intro k hk
    rw [head_other hc' hk, head_other hc hk]
  refine ⟨fun f hf => ?_, fun k hk hne => ?_, fun hsame k => ?_⟩
  · rw [assembled_field hf, assembled_field hf,
      head_again hg hc hc' hfields hf]
  · rw [getMember_assembled hne, getMember_assembled hne,
      detailed_congr (hother k hk)]
  · have hhead : ∀ k, getMember (inventoryHead email
          (classificationFromExisting existing)) k
        = getMember (inventoryHead email c) k := by
      intro k
      by_cases hk : k ∈ classificationFields
      · rw [head_again hg hc hc' hfields hk]
        cases hv : getMember (inventoryHead email c) k with
        | none => rfl
        | some v =>
            exact congrArg some
              (hsame k hk v ((assembled_field hk).trans hv))
      · exact hother k hk
    have hdetailed : ∀ k, getMember (detailed email
          (classificationFromExisting existing) rows threadRows) k
        = getMember (detailed email c rows threadRows) k :=
      fun k => detailed_congr (hhead k)
    unfold assembled
    simp only [Json.getMember_setMember, hdetailed,
      overview_congr hdetailed]

end Again

end LegalBot.Inventory
