/-
Which attachment a file name stands for, in whatever order the rows come.

# One pass

`_resolve_attachment` returns the first row whose name is the reference
or contains it. The second test takes in the first (`nameMatches_iff`),
so the row that comes first wins, not the one that is named so. A
reference that is the id of an attachment is not looked for by name at
all.

# The law

`ExactNamesWin` is about every order of the rows. It holds exactly when
a reference that is a name has no rival (`Unrivalled`).
-/
import LegalBot.Proofs.ToolConfinement

namespace LegalBot.Tools

open Relational (HasKey Table)

-- ============================================================== statements

/-- The same database, with the rows of the attachments in another
order. -/
structure Reordered (db db' : Db) : Prop where
  rows : db'.attachments.rows.Perm db.attachments.rows
  rest : db' = { db with attachments := db'.attachments }

/-- The attachments of the email of a session. -/
def emailAttachments (db : Db) (sessionId : Uuid) :
    List IngestionAttachment :=
  match itemOf db sessionId with
  | none => []
  | some item => attachmentsOf db item.id

/-- The name of the attachment is the reference, but for case. -/
def IsNamed (env : ToolEnv) (ref : String) (att : IngestionAttachment) :
    Prop :=
  env.lower att.name = env.lower ref

instance (env : ToolEnv) (ref : String) :
    DecidablePred (IsNamed env ref) := fun att =>
  inferInstanceAs (Decidable (env.lower att.name = env.lower ref))

/-- What may be meant: the attachments of that name, or if there is none,
those whose name contains the reference. -/
def meant (env : ToolEnv) (ref : String)
    (atts : List IngestionAttachment) : List IngestionAttachment :=
  if atts.filter (IsNamed env ref) = [] then
    atts.filter (nameMatches env ref)
  else atts.filter (IsNamed env ref)

/-- A name finds an attachment of that name, a part of a name one that
has it only where no attachment has the name, and what alone is meant is
found in every order of the rows. -/
structure ExactNamesWin (env : ToolEnv) (db : Db) (sessionId : Uuid)
    (ref : String) : Prop where
  exact : (∃ a ∈ emailAttachments db sessionId, IsNamed env ref a) →
    ∀ db', Reordered db db' → ∃ a ∈ emailAttachments db sessionId,
      resolveAttachment env db' sessionId ref = some a
        ∧ IsNamed env ref a
  longer : ∀ db', Reordered db db' →
    ∀ a ∈ emailAttachments db sessionId,
      resolveAttachment env db' sessionId ref = some a →
      ¬ IsNamed env ref a →
      ∀ b ∈ emailAttachments db sessionId, ¬ IsNamed env ref b
  unique : (meant env ref (emailAttachments db sessionId)).length = 1 →
    ∀ db', Reordered db db' →
      resolveAttachment env db' sessionId ref
        = resolveAttachment env db sessionId ref

/-- The reference is the id of an attachment of that name, of the email;
or it is no id, and no longer name of the email contains it. -/
def Unrivalled (env : ToolEnv) (db : Db) (sessionId : Uuid)
    (ref : String) : Prop :=
  match attachmentById db ref with
  | some b => b ∈ emailAttachments db sessionId ∧ IsNamed env ref b
  | none => ∀ b ∈ emailAttachments db sessionId,
      (env.lower ref).toList <:+: (env.lower b.name).toList →
        IsNamed env ref b

-- =================================================================== search

section Search

variable {env : ToolEnv} {db db' : Db} {sid : Uuid} {ref : String}
  {a b : IngestionAttachment}

/-- A name is part of itself, so the first test decides nothing. -/
theorem nameMatches_iff : nameMatches env ref a = true
    ↔ (env.lower ref).toList <:+: (env.lower a.name).toList := by
  unfold nameMatches
  rw [Bool.or_eq_true, decide_eq_true_iff, decide_eq_true_iff]
  constructor
  · rintro (hname | hpart)
    · exact hname ▸ List.infix_refl _
    · exact hpart
  · exact Or.inr

theorem nameMatches_of_isNamed (h : IsNamed env ref a) :
    nameMatches env ref a = true := by
  unfold nameMatches
  rw [Bool.or_eq_true]
  exact Or.inl (decide_eq_true h)

/-- The search by name, over the attachments of the email. -/
theorem attachmentByName_eq : attachmentByName env db sid ref
    = (emailAttachments db sid).find? (nameMatches env ref) := by
  unfold attachmentByName emailAttachments
  cases itemOf db sid with
  | none => rfl
  | some item => rfl

theorem resolve_of_id (h : attachmentById db ref = some b) :
    resolveAttachment env db sid ref = some b := by
  unfold resolveAttachment
  rw [h]

theorem resolve_of_name (h : attachmentById db ref = none) :
    resolveAttachment env db sid ref
      = (emailAttachments db sid).find? (nameMatches env ref) := by
  unfold resolveAttachment
  rw [h]
  exact attachmentByName_eq

/-- A search that one element alone answers finds it. -/
theorem find_only {α : Type} {p : α → Bool} {l : List α} {x : α}
    (hx : x ∈ l) (hp : p x = true) (honly : ∀ y ∈ l, p y = true → y = x) :
    l.find? p = some x := by
  cases hfind : l.find? p with
  | none => exact absurd hp (List.find?_eq_none.mp hfind x hx)
  | some y =>
      rw [honly y (List.mem_of_find?_eq_some hfind)
        (List.find?_some hfind)]

end Search

-- =================================================================== orders

section Orders

variable {env : ToolEnv} {db db' : Db} {sid : Uuid} {ref : String}
  {a b : IngestionAttachment}

theorem Reordered.refl (db : Db) : Reordered db db :=
  ⟨List.Perm.refl _, rfl⟩

/-- The items are reached by other tables. -/
theorem Reordered.itemOf (h : Reordered db db') :
    Tools.itemOf db' sid = Tools.itemOf db sid := by
  rw [h.rest]
  rfl

theorem Reordered.emailAttachments (h : Reordered db db') :
    (Tools.emailAttachments db' sid).Perm
      (Tools.emailAttachments db sid) := by
  unfold Tools.emailAttachments
  rw [h.itemOf]
  cases Tools.itemOf db sid with
  | none => exact List.Perm.refl _
  | some item => exact h.rows.filter _

/-- A search by id does not see the order. -/
theorem Reordered.attachmentById (h : Reordered db db') :
    Tools.attachmentById db' ref = Tools.attachmentById db ref := by
  have hget : ∀ id, db'.attachments.get id = db.attachments.get id := by
    intro id
    cases hfound : db.attachments.get id with
    | some r => exact Table.get_of_shared hfound h.rows.mem_iff.mpr
    | none =>
        rw [Table.get_eq_none] at hfound ⊢
        intro hmem
        exact hfound ((h.rows.map HasKey.key).mem_iff.mp hmem)
  unfold Tools.attachmentById
  exact congrArg _ (funext hget)

/-- Any attachment of the email may come first. -/
theorem exists_first (hb : b ∈ emailAttachments db sid) :
    ∃ db', Reordered db db'
      ∧ (emailAttachments db' sid).head? = some b := by
  cases hitem : itemOf db sid with
  | none =>
      unfold emailAttachments at hb
      rw [hitem] at hb
      cases hb
  | some item =>
      unfold emailAttachments at hb
      rw [hitem] at hb
      obtain ⟨hrow, hown⟩ := mem_attachmentsOf.mp hb
      have hperm : db.attachments.rows.Perm
          (b :: db.attachments.rows.erase b) := List.perm_cons_erase hrow
      let db' : Db := { db with
        attachments := ⟨b :: db.attachments.rows.erase b,
          (hperm.map HasKey.key).nodup_iff.mp db.attachments.nodup⟩ }
      have hreordered : Reordered db db' := ⟨hperm.symm, rfl⟩
      refine ⟨db', hreordered, ?_⟩
      unfold emailAttachments
      rw [hreordered.itemOf, hitem]
      have hfirst : attachmentsOf db' item.id
          = b :: (db.attachments.rows.erase b).filter
            fun a => a.ingestionItemId = item.id :=
        List.filter_cons_of_pos (by simpa using hown)
      exact congrArg List.head? hfirst

/-- The first that matches is found. -/
theorem find_head {α : Type} {p : α → Bool} {l : List α} {x : α}
    (hhead : l.head? = some x) (hp : p x = true) : l.find? p = some x := by
  cases l with
  | nil => cases hhead
  | cons y l =>
      injection hhead with hhead
      rw [hhead, List.find?_cons_of_pos hp]

end Orders

-- ====================================================================== law

section Law

variable {env : ToolEnv} {db db' : Db} {sid : Uuid} {ref : String}
  {a : IngestionAttachment}

/-- What alone is meant is all that matches, if there are no rivals. -/
theorem meant_only (hid : attachmentById db ref = none)
    (h : (∃ a ∈ emailAttachments db sid, IsNamed env ref a) →
      Unrivalled env db sid ref)
    (hone : (meant env ref (emailAttachments db sid)).length = 1) :
    ∃ a ∈ emailAttachments db sid, nameMatches env ref a = true
      ∧ ∀ b ∈ emailAttachments db sid, nameMatches env ref b = true →
        b = a := by
  obtain ⟨a, ha⟩ := List.length_eq_one_iff.mp hone
  unfold meant at ha
  split at ha
  · have hmem : a ∈ (emailAttachments db sid).filter
        (nameMatches env ref) := by
      rw [ha]
      exact List.mem_singleton_self a
    obtain ⟨hatt, hmatch⟩ := List.mem_filter.mp hmem
    refine ⟨a, hatt, hmatch, fun b hb hpart => ?_⟩
    have hb' := List.mem_filter.mpr ⟨hb, hpart⟩
    rw [ha] at hb'
    exact List.mem_singleton.mp hb'
  · have hmem : a ∈ (emailAttachments db sid).filter
        (IsNamed env ref) := by
      rw [ha]
      exact List.mem_singleton_self a
    obtain ⟨hatt, hnamed⟩ := List.mem_filter.mp hmem
    have hname := of_decide_eq_true hnamed
    refine ⟨a, hatt, nameMatches_of_isNamed hname, fun b hb hpart => ?_⟩
    have hrivals := h ⟨a, hatt, hname⟩
    unfold Unrivalled at hrivals
    rw [hid] at hrivals
    have hb' : b ∈ (emailAttachments db sid).filter (IsNamed env ref) :=
      List.mem_filter.mpr ⟨hb, decide_eq_true
        (hrivals b hb (nameMatches_iff.mp hpart))⟩
    rw [ha] at hb'
    exact List.mem_singleton.mp hb'

/-- Without rivals a name finds its attachment, in every order. -/
theorem resolve_named (h : Unrivalled env db sid ref)
    (ha : a ∈ emailAttachments db sid) (hname : IsNamed env ref a)
    (hdb : Reordered db db') : ∃ b ∈ emailAttachments db sid,
      resolveAttachment env db' sid ref = some b ∧ IsNamed env ref b := by
  unfold Unrivalled at h
  cases hid : attachmentById db ref with
  | some b =>
      rw [hid] at h
      exact ⟨b, h.1, resolve_of_id (hdb.attachmentById.trans hid), h.2⟩
  | none =>
      rw [hid] at h
      rw [resolve_of_name (hdb.attachmentById.trans hid)]
      have hmem := hdb.emailAttachments.mem_iff.mpr ha
      cases hfind : (emailAttachments db' sid).find?
          (nameMatches env ref) with
      | none =>
          exact absurd (nameMatches_of_isNamed hname)
            (List.find?_eq_none.mp hfind a hmem)
      | some b =>
          have hb := hdb.emailAttachments.mem_iff.mp
            (List.mem_of_find?_eq_some hfind)
          exact ⟨b, hb, rfl,
            h b hb (nameMatches_iff.mp (List.find?_some hfind))⟩

/-- A rival comes first in some order. -/
theorem unrivalled_of_named
    (h : ∀ db', Reordered db db' → ∃ a ∈ emailAttachments db sid,
      resolveAttachment env db' sid ref = some a ∧ IsNamed env ref a) :
    Unrivalled env db sid ref := by
  unfold Unrivalled
  cases hid : attachmentById db ref with
  | some b =>
      obtain ⟨a, ha, hfound, hname⟩ := h db (Reordered.refl db)
      rw [resolve_of_id hid] at hfound
      injection hfound with hfound
      exact hfound ▸ ⟨ha, hname⟩
  | none =>
      intro b hb hpart
      obtain ⟨db', hdb, hhead⟩ := exists_first hb
      obtain ⟨a, -, hfound, hname⟩ := h db' hdb
      rw [resolve_of_name (hdb.attachmentById.trans hid),
        find_head hhead (nameMatches_iff.mpr hpart)] at hfound
      injection hfound with hfound
      exact hfound ▸ hname

/-- Exact names win exactly when a reference that is a name has no
rival. -/
theorem exact_names_win_iff : ExactNamesWin env db sid ref
    ↔ ((∃ a ∈ emailAttachments db sid, IsNamed env ref a) →
      Unrivalled env db sid ref) := by
  constructor
  · intro h hnamed
    exact unrivalled_of_named (h.exact hnamed)
  · intro h
    have hexact : (∃ a ∈ emailAttachments db sid, IsNamed env ref a) →
        ∀ db', Reordered db db' → ∃ a ∈ emailAttachments db sid,
          resolveAttachment env db' sid ref = some a
            ∧ IsNamed env ref a := by
      rintro ⟨a, ha, hname⟩ db' hdb
      exact resolve_named (h ⟨a, ha, hname⟩) ha hname hdb
    refine { exact := hexact, longer := ?_, unique := ?_ }
    · intro db' hdb a ha hfound hno b hb hname
      obtain ⟨c, -, hfound', hname'⟩ := hexact ⟨b, hb, hname⟩ db' hdb
      rw [hfound] at hfound'
      injection hfound' with hsame
      exact hno (hsame ▸ hname')
    · intro hone db' hdb
      cases hid : attachmentById db ref with
      | some b =>
          rw [resolve_of_id hid,
            resolve_of_id (hdb.attachmentById.trans hid)]
      | none =>
          obtain ⟨a, ha, hmatch, honly⟩ := meant_only hid h hone
          rw [resolve_of_name hid,
            resolve_of_name (hdb.attachmentById.trans hid),
            find_only ha hmatch honly]
          refine find_only (hdb.emailAttachments.mem_iff.mpr ha) hmatch ?_
          exact fun b hb =>
            honly b (hdb.emailAttachments.mem_iff.mp hb)

end Law

/-- The rows of Alice, with two attachments. -/
def twoContracts : Db :=
  { Db.empty.join alice alice_fresh with
    attachments :=
      ⟨[⟨30, 10, "anexo contrato.pdf"⟩, ⟨31, 10, "contrato.pdf"⟩],
        by decide⟩ }

/-- The longer name comes first and is found. -/
theorem longer_name_found : ¬ ∀ (env : ToolEnv) (db : Db)
    (sessionId : Uuid) (ref : String),
    ExactNamesWin env db sessionId ref := by
  intro hlaw
  have hwins := hlaw ToolEnv.sample twoContracts 10 "contrato.pdf"
  have hnamed : ∃ a ∈ emailAttachments twoContracts 10,
      IsNamed ToolEnv.sample "contrato.pdf" a :=
    ⟨⟨31, 10, "contrato.pdf"⟩, by decide +kernel, rfl⟩
  obtain ⟨a, -, hfound, hname⟩ :=
    hwins.exact hnamed twoContracts (Reordered.refl _)
  have hlonger : resolveAttachment ToolEnv.sample twoContracts 10
      "contrato.pdf" = some ⟨30, 10, "anexo contrato.pdf"⟩ := by
    decide +kernel
  rw [hlonger] at hfound
  injection hfound with hfound
  subst hfound
  exact absurd hname (by decide +kernel)

end LegalBot.Tools
