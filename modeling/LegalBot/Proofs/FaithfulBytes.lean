/-
The bytes of attachments, from the parts of a message to its rows.

# What is put

The bytes are kept under the name of the part, the last part of a name
counting (`lookup_part`), and a name without bytes falls back
to the part without a name (`valueOf`). So a row comes to a file by its
name alone, and files are told apart by their paths alone.

# The law

`Faithful` compares each row with its part. It holds exactly when parts
do not get into each other's way (`SameBytes`): `bytes_faithful_iff`, of
every run of a task that inserts an item.
-/
import LegalBot.Proofs.MailboxSchedules

namespace LegalBot.Mail

-- ============================================================== statements

/-- What the provider delivered for a part; `none` if the download
raised. -/
def Fetched.delivered (f : Fetched) (part : RawAttachment) :
    Option Bytes :=
  match part.data with
  | some data => some data
  | none => f.download part.partId

/-- A row is that of the part, and its file has the bytes of the part. -/
structure Fetched.Kept (f : Fetched) (blobs : BlobStore)
    (part : RawAttachment) (att : IngestionAttachment) : Prop where
  name : att.name = part.name
  mimeType : att.mimeType = some part.mimeType
  bytes : ∀ ref, att.rawUri = some ref →
    ∃ data, f.delivered part = some data ∧ blobs.get ref = some data
  stored : ∀ b data, f.delivered part = some (b :: data) →
    att.rawUri ≠ none

/-- The rows are those of the parts, one each and in order. -/
def Fetched.Faithful (f : Fetched) (blobs : BlobStore)
    (row : IngestionItem) : Prop :=
  List.Forall₂ (f.Kept blobs) f.raw.attachments row.attachments

/-- The file of a part. -/
def Fetched.pathOf (f : Fetched) (part : RawAttachment) : Path :=
  resolve (blobRef (mapEmail f.raw) part.name)

/-- A part with bytes and another part: of one name they are the same, in
one file the other has the same bytes or none, and if the first has no
name, the other has bytes. -/
structure Fetched.Agree (f : Fetched) (b : UInt8) (data : Bytes)
    (part other : RawAttachment) : Prop where
  name : other.name = part.name → f.delivered other = some (b :: data)
  path : f.pathOf other = f.pathOf part → ∀ c rest,
    f.delivered other = some (c :: rest) → c :: rest = b :: data
  nameless : part.name = "" → ∃ c rest,
    f.delivered other = some (c :: rest)

/-- The parts with bytes agree with all the parts. -/
def Fetched.SameBytes (f : Fetched) : Prop :=
  ∀ part ∈ f.raw.attachments, ∀ b data,
    f.delivered part = some (b :: data) →
      ∀ other ∈ f.raw.attachments, f.Agree b data part other

-- =================================================================== values

/-- What the loop puts for a name, if not empty. -/
def Fetched.valueOf (f : Fetched) (name : String) : Bytes :=
  match f.attachmentsBytes.lookup name with
  | some (b :: data) => b :: data
  | _ => (f.attachmentsBytes.lookup "").getD []

section Values

variable {f : Fetched} {part : RawAttachment} {name : String} {b : UInt8}
  {data : Bytes}

theorem attachmentsBytes_eq : f.attachmentsBytes
    = (f.raw.attachments.map fun part =>
      (part.name, (f.delivered part).getD [])).reverse := by
  have hfold : ∀ (parts : List RawAttachment) (d : List (String × Bytes)),
      parts.foldl (fun d att =>
        match att.data with
        | some data => (att.name, data) :: d
        | none => (att.name, (f.download att.partId).getD []) :: d) d
      = (parts.map fun part =>
        (part.name, (f.delivered part).getD [])).reverse ++ d := by
    intro parts
    induction parts with
    | nil => exact fun _ => rfl
    | cons part parts ih =>
        intro d
        rw [List.foldl_cons, ih, List.map_cons, List.reverse_cons,
          List.append_assoc]
        unfold Fetched.delivered
        cases part.data with
        | none => rfl
        | some data => rfl
  exact (hfold f.raw.attachments []).trans (List.append_nil _)

theorem part_of_lookup
    (h : f.attachmentsBytes.lookup name = some data) :
    ∃ part ∈ f.raw.attachments, part.name = name
      ∧ (f.delivered part).getD [] = data := by
  rw [attachmentsBytes_eq] at h
  obtain ⟨_, _, heq, -⟩ := List.lookup_eq_some_iff.mp h
  have hmem : (name, data) ∈ (f.raw.attachments.map fun part =>
      (part.name, (f.delivered part).getD [])).reverse := by
    rw [heq]
    exact List.mem_append_right _ List.mem_cons_self
  obtain ⟨part, hpart, hentry⟩ := List.mem_map.mp (List.mem_reverse.mp hmem)
  injection hentry with hname hdata
  exact ⟨part, hpart, hname, hdata⟩

/-- The name of a part has the bytes of a part of the name. -/
theorem lookup_part (h : part ∈ f.raw.attachments) :
    ∃ last ∈ f.raw.attachments, last.name = part.name
      ∧ f.attachmentsBytes.lookup part.name
        = some ((f.delivered last).getD []) := by
  have hsome : (f.attachmentsBytes.lookup part.name).isSome := by
    rw [List.lookup_isSome_iff, attachmentsBytes_eq]
    exact ⟨_, List.mem_reverse.mpr (List.mem_map_of_mem h), beq_self_eq_true _⟩
  obtain ⟨data, hdata⟩ := Option.isSome_iff_exists.mp hsome
  obtain ⟨last, hlast, hname, hbytes⟩ := part_of_lookup hdata
  exact ⟨last, hlast, hname, hbytes ▸ hdata⟩

theorem delivered_of_getD {o : Option Bytes} (h : o.getD [] = b :: data) :
    o = some (b :: data) := by
  cases o with
  | none => cases h
  | some data => exact congrArg some h

/-- A nameless part with bytes gives every name bytes. -/
theorem valueOf_of_nameless (h : f.valueOf "" ≠ []) :
    f.valueOf name ≠ [] := by
  have hfallback : (f.attachmentsBytes.lookup "").getD [] ≠ [] := by
    unfold Fetched.valueOf at h
    split at h
    · rename_i hlookup
      rw [hlookup]
      exact h
    · exact h
  unfold Fetched.valueOf
  split
  · exact List.cons_ne_nil _ _
  · exact hfallback

/-- A part with bytes gives its name bytes, unless a later part of the
name has none; here they agree. -/
theorem Fetched.SameBytes.valueOf (h : f.SameBytes)
    (hpart : part ∈ f.raw.attachments) :
    f.valueOf part.name = (f.delivered part).getD [] := by
  obtain ⟨last, hlast, hname, hlookup⟩ := lookup_part hpart
  unfold Fetched.valueOf
  rw [hlookup]
  cases hbytes : (f.delivered last).getD [] with
  | cons b data =>
      have hagree := h last hlast b data (delivered_of_getD hbytes) part hpart
      rw [hagree.name hname.symm]
      rfl
  | nil =>
      -- the last part has no bytes, so none has that it agrees with
      have hnone : (f.delivered part).getD [] = [] := by
        cases hdata : (f.delivered part).getD [] with
        | nil => rfl
        | cons b data =>
            have hagree := h part hpart b data (delivered_of_getD hdata)
              last hlast
            rw [hagree.name hname] at hbytes
            cases hbytes
      dsimp only
      rw [hnone]
      cases hempty : (f.attachmentsBytes.lookup "").getD [] with
      | nil => rfl
      | cons b data =>
          have hsome : f.attachmentsBytes.lookup "" = some (b :: data) :=
            delivered_of_getD hempty
          obtain ⟨first, hfirst, hnameless, hdata⟩ := part_of_lookup hsome
          obtain ⟨c, rest, hrest⟩ := (h first hfirst b data
            (delivered_of_getD hdata) last hlast).nameless hnameless
          rw [hrest] at hbytes
          cases hbytes

end Values

-- ==================================================================== rows

/-- The reference of a row, by the name of its part. -/
def Fetched.uriOf (f : Fetched) (name : String) : Option String :=
  if f.valueOf name = [] then none
  else some (blobRef (mapEmail f.raw) name)

section Rows

variable {f : Fetched} {part : RawAttachment} {name ref : String}
  {mb : Mailbox} {draw : Draw} {blobs : BlobStore}

theorem specBlob_part {spec : AttachmentSpec} (h : spec.rawUri = none) :
    specBlob (mapEmail f.raw) f.attachmentsBytes spec
      = if f.valueOf spec.name = [] then none
        else some (blobRef (mapEmail f.raw) spec.name,
          f.valueOf spec.name) := by
  unfold specBlob specData Fetched.valueOf
  rw [h]
  cases hlookup : f.attachmentsBytes.lookup spec.name with
  | none =>
      dsimp only [Option.getD]
      cases hempty : f.attachmentsBytes.lookup "" with
      | none => rfl
      | some data =>
          cases data with
          | nil => rfl
          | cons b data => rfl
  | some data =>
      cases data with
      | nil =>
          dsimp only [Option.getD]
          cases hempty : f.attachmentsBytes.lookup "" with
          | none => rfl
          | some data =>
              cases data with
              | nil => rfl
              | cons b data => rfl
      | cons b data => rfl

/-- The blobs are those of the names with bytes. -/
theorem mem_blobs {x : Path × Bytes} : x ∈ f.blobs
    ↔ ∃ part ∈ f.raw.attachments, f.valueOf part.name ≠ []
      ∧ x = (f.pathOf part, f.valueOf part.name) := by
  unfold Fetched.blobs blobsOf
  rw [List.mem_filterMap]
  constructor
  · rintro ⟨spec, hspec, hx⟩
    obtain ⟨part, hpart, rfl⟩ := List.mem_map.mp hspec
    rw [specBlob_part rfl] at hx
    split at hx
    · cases hx
    · rename_i hvalue
      exact ⟨part, hpart, hvalue, (Option.some.inj hx).symm⟩
  · rintro ⟨part, hpart, hvalue, rfl⟩
    refine ⟨_, List.mem_map_of_mem hpart, ?_⟩
    rw [specBlob_part rfl, if_neg hvalue]
    rfl

/-- What is in a file is what was put there. -/
theorem at_written (mb : Mailbox) (blobs : BlobStore)
    {bs : List (Path × Bytes)} {x : Path × Bytes} (hx : x ∈ bs) : ∃ y ∈ bs, y.1 = x.1
      ∧ BlobStore.at (writes mb bs ++ blobs) x.1 = some y.2 := by
  unfold BlobStore.at
  rw [List.find?_append]
  cases hfind : (writes mb bs).find? fun b => b.path = x.1 with
  | none =>
      refine absurd (decide_eq_true rfl) (List.find?_eq_none.mp hfind
        ⟨mb, x.1, x.2⟩ ?_)
      exact List.mem_reverse.mpr (List.mem_map_of_mem hx)
  | some b =>
      obtain ⟨y, hy, rfl⟩ := List.mem_map.mp
        (List.mem_reverse.mp (List.mem_of_find?_eq_some hfind))
      have hpath := List.find?_some hfind
      exact ⟨y, hy, of_decide_eq_true hpath, rfl⟩

/-- The file of a row has the bytes of a name that leads there. -/
theorem get_uriOf (mb : Mailbox) (blobs : BlobStore)
    (hpart : part ∈ f.raw.attachments)
    (href : f.uriOf part.name = some ref) :
    ∃ other ∈ f.raw.attachments, f.pathOf other = f.pathOf part
      ∧ f.valueOf other.name ≠ []
      ∧ BlobStore.get (writes mb f.blobs ++ blobs) ref
        = some (f.valueOf other.name) := by
  unfold Fetched.uriOf at href
  split at href
  · cases href
  · rename_i hvalue
    obtain ⟨y, hy, hpath, hget⟩ := at_written mb blobs
      (mem_blobs.mpr ⟨part, hpart, hvalue, rfl⟩)
    obtain ⟨other, hother, hvalue', rfl⟩ := mem_blobs.mp hy
    dsimp only at hpath hget
    refine ⟨other, hother, hpath, hvalue', ?_⟩
    rw [← Option.some.inj href, BlobStore.get]
    exact hget

/-- Parts of one file have rows of one file. -/
theorem get_of_path {other : RawAttachment} {ref' : String}
    (hpath : f.pathOf other = f.pathOf part)
    (href : f.uriOf part.name = some ref)
    (href' : f.uriOf other.name = some ref') :
    blobs.get ref' = blobs.get ref := by
  unfold Fetched.uriOf at href href'
  split at href
  · cases href
  · split at href'
    · cases href'
    · rw [← Option.some.inj href, ← Option.some.inj href']
      exact congrArg blobs.at hpath

theorem roundOf_part (spec : AttachmentSpec) (h : spec.rawUri = none) :
    let spec' := roundOf (mapEmail f.raw) f.attachmentsBytes spec
    spec'.name = spec.name ∧ spec'.mimeType = spec.mimeType
      ∧ spec'.rawUri = f.uriOf spec.name := by
  unfold roundOf
  rw [specBlob_part h]
  unfold Fetched.uriOf
  split_ifs with hvalue
  · exact ⟨rfl, rfl, h⟩
  · exact ⟨rfl, rfl, rfl⟩

theorem forall₂_zip {α β γ δ : Type} {R : α → δ → Prop} {g : α → γ}
    {h : β × γ → δ} (hR : ∀ a b, R a (h (b, g a))) :
    ∀ {as : List α} {bs : List β}, bs.length = as.length →
      List.Forall₂ R as ((bs.zip (as.map g)).map h) := by
  intro as
  induction as with
  | nil =>
      intro bs hlen
      rw [List.length_eq_zero_iff.mp hlen]
      exact List.Forall₂.nil
  | cons a as ih =>
      intro bs hlen
      cases bs with
      | nil => cases hlen
      | cons b bs =>
          exact List.Forall₂.cons (hR a b) (ih (Nat.succ.inj hlen))

/-- The row of a part is named like it, and refers by the name. -/
structure Fetched.RowOf (f : Fetched) (part : RawAttachment)
    (att : IngestionAttachment) : Prop where
  name : att.name = part.name
  mimeType : att.mimeType = some part.mimeType
  rawUri : att.rawUri = f.uriOf part.name

/-- The rows of an item. -/
theorem item_attachments
    (hlen : draw.attachmentIds.length = f.raw.attachments.length) :
    List.Forall₂ f.RowOf f.raw.attachments
      (f.item mb draw).attachments := by
  have hrows : (mapEmail f.raw).attachments.map
      (roundOf (mapEmail f.raw) f.attachmentsBytes)
      = f.raw.attachments.map (fun part =>
        roundOf (mapEmail f.raw) f.attachmentsBytes
          { name := part.name, mimeType := some part.mimeType
            size := part.size, rawUri := none }) :=
    List.map_map
  unfold Fetched.item newItem
  dsimp only
  rw [hrows]
  refine forall₂_zip (fun part id => ?_) hlen
  obtain ⟨hname, hmime, huri⟩ := roundOf_part (f := f)
    ⟨part.name, some part.mimeType, part.size, none⟩ rfl
  exact ⟨hname, hmime, huri⟩

end Rows

-- ===================================================================== runs

section Runs

variable {mb : Mailbox} {w : Nat} {f : Fetched} {draw : Draw}
  {mapped : MappedItem} {d : List (String × Bytes)}
  {row : IngestionItem} {s s' : MailState}

/-- A task that has raised takes neither a round nor a transaction. -/
theorem raised_stuck (hpoint : s.tasks mb w = .raised) (n : Nat) :
    Lts.run MailState.step s
      (List.replicate n ⟨mb, w, .blob⟩ ++ [⟨mb, w, .commit draw⟩])
        = none := by
  cases n with
  | zero =>
      have hstep : MailState.step ⟨mb, w, .commit draw⟩ s = none := by
        show s.commit mb w draw = none
        unfold MailState.commit
        rw [hpoint]
      rw [List.replicate_zero, List.nil_append, Lts.run, hstep]
  | succ n =>
      have hstep : MailState.step ⟨mb, w, .blob⟩ s = none := by
        show s.blob mb w = none
        unfold MailState.blob
        rw [hpoint]
      rw [List.replicate_succ, List.cons_append, Lts.run, hstep]

/-- A transaction that inserts. -/
theorem commit_inserts {through : List AttachmentSpec}
    (hpoint : s.tasks mb w = .blobs mapped d through [])
    (hcommit : s.commit mb w draw = some s')
    (hrow : s'.tasks mb w = .returned row true) :
    row = newItem mb { mapped with attachments := through } draw
      ∧ s'.blobs = s.blobs
      ∧ draw.attachmentIds.length = through.length := by
  unfold MailState.commit at hcommit
  rw [hpoint] at hcommit
  dsimp only at hcommit
  split at hcommit
  · injection hcommit with hcommit
    rw [← hcommit, moveTo_tasks, if_pos ⟨rfl, rfl⟩] at hrow
    cases hrow
  · split at hcommit
    · rename_i hfresh
      injection hcommit with hcommit
      rw [← hcommit, moveTo_tasks, if_pos ⟨rfl, rfl⟩] at hrow
      injection hrow with hrow
      exact ⟨hrow.symm, hcommit ▸ rfl, hfresh.2⟩
    · cases hcommit

/-- A round, unless it raises. -/
theorem blob_inversion {spec : AttachmentSpec}
    {through rest : List AttachmentSpec}
    (hpoint : s.tasks mb w = .blobs mapped d through (spec :: rest))
    (hblob : s.blob mb w = some s') : s'.tasks mb w = .raised
      ∨ s'.tasks mb w
          = .blobs mapped d (through ++ [roundOf mapped d spec]) rest
        ∧ s'.blobs = writes mb (blobsOf mapped d [spec]) ++ s.blobs := by
  unfold MailState.blob at hblob
  rw [hpoint] at hblob
  dsimp only at hblob
  unfold roundOf blobsOf
  rw [List.filterMap_cons]
  cases hspec : specBlob mapped d spec with
  | none =>
      rw [hspec] at hblob
      injection hblob with hblob
      rw [← hblob, moveTo_tasks, if_pos ⟨rfl, rfl⟩]
      exact Or.inr ⟨rfl, rfl⟩
  | some x =>
      obtain ⟨ref, data⟩ := x
      rw [hspec] at hblob
      dsimp only at hblob
      split at hblob
      · injection hblob with hblob
        rw [← hblob, moveTo_tasks, if_pos ⟨rfl, rfl⟩]
        exact Or.inl rfl
      · rename_i hput
        injection hblob with hblob
        rw [← hblob, moveTo_tasks, if_pos ⟨rfl, rfl⟩]
        exact Or.inr ⟨rfl, put_some hput⟩

/-- What the rounds and the transaction leave: every blob, and the item
with the specs after their rounds. -/
theorem rounds_insert {specs : List AttachmentSpec} :
    ∀ {s : MailState} {through : List AttachmentSpec},
      s.tasks mb w = .blobs mapped d through specs →
      Lts.run MailState.step s (List.replicate specs.length
        ⟨mb, w, .blob⟩ ++ [⟨mb, w, .commit draw⟩]) = some s' →
      s'.tasks mb w = .returned row true →
      row = newItem mb { mapped with
          attachments := through ++ specs.map (roundOf mapped d) } draw
        ∧ s'.blobs = writes mb (blobsOf mapped d specs) ++ s.blobs
        ∧ draw.attachmentIds.length = through.length + specs.length := by
  induction specs with
  | nil =>
      intro s through hpoint hrun hrow
      rw [List.length_nil, List.replicate_zero, List.nil_append,
        Lts.run] at hrun
      split at hrun
      · rename_i s₁ hstep
        injection hrun with hrun
        rw [← hrun] at hrow ⊢
        rw [List.map_nil, List.append_nil]
        exact commit_inserts hpoint hstep hrow
      · cases hrun
  | cons spec specs ih =>
      intro s through hpoint hrun hrow
      rw [List.length_cons, List.replicate_succ, List.cons_append,
        Lts.run] at hrun
      split at hrun
      · rename_i s₁ hstep
        rcases blob_inversion hpoint hstep with hraised | ⟨hnext, hblobs⟩
        · rw [raised_stuck hraised] at hrun
          cases hrun
        · obtain ⟨hitem, hwritten, hlen⟩ := ih hnext hrun hrow
          refine ⟨?_, ?_, ?_⟩
          · rw [hitem, List.map_cons, ← List.append_cons]
          · rw [hwritten, hblobs, blobsOf_cons spec specs, writes_append,
              List.append_assoc]
          · simp only [List.length_append, List.length_cons,
              List.length_nil] at hlen ⊢
            omega
      · cases hrun

/-- What a task leaves that inserts an item. -/
theorem whole_inserts
    (hrun : Lts.run MailState.step s (whole mb w f draw) = some s')
    (hrow : s'.tasks mb w = .returned row true) :
    row = f.item mb draw ∧ s'.blobs = writes mb f.blobs ++ s.blobs
      ∧ draw.attachmentIds.length = f.raw.attachments.length := by
  unfold whole attempt at hrun
  rw [List.cons_append, Lts.run] at hrun
  split at hrun
  · rename_i s₁ hstep
    unfold MailState.step at hstep
    dsimp only at hstep
    have hdelivered : s₁ = s.moveTo mb w (.blobs (mapEmail f.raw)
        f.attachmentsBytes [] (mapEmail f.raw).attachments) := by
      split at hstep
      · cases hstep
      · injection hstep with hstep
        exact hstep.symm
    have hpoint : s₁.tasks mb w = .blobs (mapEmail f.raw)
        f.attachmentsBytes [] (mapEmail f.raw).attachments := by
      rw [hdelivered, moveTo_tasks, if_pos ⟨rfl, rfl⟩]
    obtain ⟨hitem, hblobs, hlen⟩ := rounds_insert hpoint hrun hrow
    refine ⟨hitem, ?_, ?_⟩
    · rw [hblobs, hdelivered]
      rfl
    · rw [hlen, List.length_nil, Nat.zero_add]
      exact List.length_map _
  · cases hrun

end Runs

-- ===================================================================== law

/-- A part is kept under its name. -/
structure Fetched.PartKept (f : Fetched) (blobs : BlobStore)
    (part : RawAttachment) : Prop where
  bytes : ∀ ref, f.uriOf part.name = some ref →
    ∃ data, f.delivered part = some data ∧ blobs.get ref = some data
  stored : ∀ b data, f.delivered part = some (b :: data) →
    f.uriOf part.name ≠ none

section Law

variable {f : Fetched} {part : RawAttachment} {name ref : String}
  {mb : Mailbox} {blobs : BlobStore}

theorem kept_iff {att : IngestionAttachment} (h : f.RowOf part att) :
    f.Kept blobs part att ↔ f.PartKept blobs part := by
  constructor
  · intro hkept
    exact ⟨h.rawUri ▸ hkept.bytes, h.rawUri ▸ hkept.stored⟩
  · intro hkept
    exact ⟨h.name, h.mimeType, h.rawUri ▸ hkept.bytes,
      h.rawUri ▸ hkept.stored⟩

theorem forall₂_iff_of {α β : Type} {R S : α → β → Prop} {P : α → Prop}
    {as : List α} {bs : List β} (h : ∀ a b, S a b → (R a b ↔ P a))
    (hS : List.Forall₂ S as bs) :
    List.Forall₂ R as bs ↔ ∀ a ∈ as, P a := by
  induction hS with
  | nil => exact ⟨fun _ a ha => absurd ha List.not_mem_nil,
      fun _ => List.Forall₂.nil⟩
  | cons hab _ ih => rw [List.forall₂_cons, List.forall_mem_cons,
      h _ _ hab, ih]

theorem uriOf_iff : (∃ ref, f.uriOf name = some ref)
    ↔ f.valueOf name ≠ [] := by
  unfold Fetched.uriOf
  split_ifs with hvalue
  · exact ⟨fun ⟨_, h⟩ => (by cases h), fun h => absurd hvalue h⟩
  · exact ⟨fun _ => hvalue, fun _ => ⟨_, rfl⟩⟩

/-- Parts that agree are kept. -/
theorem Fetched.SameBytes.kept (h : f.SameBytes)
    (hpart : part ∈ f.raw.attachments) :
    f.PartKept (writes mb f.blobs ++ blobs) part where
  bytes := by
    intro ref href
    have hvalue := uriOf_iff.mp ⟨ref, href⟩
    rw [h.valueOf hpart] at hvalue
    obtain ⟨b, data, hbytes⟩ := List.exists_cons_of_ne_nil hvalue
    have hdata := delivered_of_getD hbytes
    -- another part may have written the file, but the same bytes
    obtain ⟨other, hother, hpath, hne, hget⟩ :=
      get_uriOf mb blobs hpart href
    rw [h.valueOf hother] at hne hget
    obtain ⟨c, rest, hrest⟩ := List.exists_cons_of_ne_nil hne
    have hsame := (h part hpart b data hdata other hother).path hpath c
      rest (delivered_of_getD hrest)
    exact ⟨b :: data, hdata, by rw [hget, hrest, hsame]⟩
  stored := by
    intro b data hdata hnone
    have hvalue : f.valueOf part.name ≠ [] := by
      rw [h.valueOf hpart, hdata]
      exact List.cons_ne_nil _ _
    obtain ⟨ref, href⟩ := uriOf_iff.mpr hvalue
    rw [hnone] at href
    cases href

/-- The file of a part with bytes has them, if parts are kept. -/
theorem Fetched.PartKept.get {b : UInt8} {data : Bytes}
    (h : f.PartKept blobs part)
    (hdata : f.delivered part = some (b :: data)) :
    ∃ ref, f.uriOf part.name = some ref
      ∧ blobs.get ref = some (b :: data) := by
  obtain ⟨ref, href⟩ := Option.ne_none_iff_exists'.mp (h.stored b data hdata)
  obtain ⟨data', hdata', hget⟩ := h.bytes ref href
  rw [hdata] at hdata'
  injection hdata' with hdata'
  exact ⟨ref, href, hdata' ▸ hget⟩

/-- Parts that are kept agree. -/
theorem sameBytes_of_kept (h : ∀ part ∈ f.raw.attachments,
    f.PartKept (writes mb f.blobs ++ blobs) part) : f.SameBytes := by
  intro part hpart b data hdata other hother
  obtain ⟨ref, href, hget⟩ := (h part hpart).get hdata
  refine { name := ?_, path := ?_, nameless := ?_ }
  · intro hname
    obtain ⟨data', hdata', hget'⟩ := (h other hother).bytes ref
      (hname ▸ href)
    rw [hdata', ← hget', hget]
  · intro hpath c rest hrest
    obtain ⟨ref', href', hget'⟩ := (h other hother).get hrest
    rw [get_of_path hpath href href', hget] at hget'
    exact (Option.some.inj hget').symm
  · intro hname
    have hvalue : f.valueOf other.name ≠ [] :=
      valueOf_of_nameless (uriOf_iff.mp ⟨ref, hname ▸ href⟩)
    obtain ⟨ref', href'⟩ := uriOf_iff.mpr hvalue
    obtain ⟨data', hdata', hget'⟩ := (h other hother).bytes ref' href'
    obtain ⟨_, _, _, hne, hput⟩ := get_uriOf mb blobs hother href'
    obtain ⟨c, rest, hrest⟩ := List.exists_cons_of_ne_nil hne
    rw [hput, hrest] at hget'
    exact ⟨c, rest, hdata'.trans hget'.symm⟩

/-- An item and its blobs, over what was stored before. -/
theorem item_faithful_iff {draw : Draw}
    (hlen : draw.attachmentIds.length = f.raw.attachments.length) :
    f.Faithful (writes mb f.blobs ++ blobs) (f.item mb draw)
      ↔ f.SameBytes := by
  have hrows : ∀ part att, f.RowOf part att →
      (f.Kept (writes mb f.blobs ++ blobs) part att
        ↔ f.PartKept (writes mb f.blobs ++ blobs) part) :=
    fun _ _ => kept_iff
  refine (forall₂_iff_of hrows (item_attachments hlen)).trans ?_
  exact ⟨sameBytes_of_kept, fun h part hpart => h.kept hpart⟩

/-- The rows of an item that a task inserts have the bytes of their
parts, if and only if the parts agree. -/
theorem bytes_faithful_iff {w : Nat} {draw : Draw} {row : IngestionItem}
    {s s' : MailState}
    (hrun : Lts.run MailState.step s (whole mb w f draw) = some s')
    (hrow : s'.tasks mb w = .returned row true) :
    f.Faithful s'.blobs row ↔ f.SameBytes := by
  obtain ⟨hitem, hblobs, hlen⟩ := whole_inserts hrun hrow
  rw [hitem, hblobs]
  exact item_faithful_iff hlen

end Law

/-- A message with a single attachment. -/
theorem lone_attachment_faithful :
    (sampleMessage "m1" "a.pdf" [1]).Faithful
        (writes annMailbox (sampleMessage "m1" "a.pdf" [1]).blobs)
        ((sampleMessage "m1" "a.pdf" [1]).item annMailbox
          (sampleMessage "m1" "a.pdf" [1]).draw)
      ↔ (sampleMessage "m1" "a.pdf" [1]).SameBytes := by
  have hstorable : (sampleMessage "m1" "a.pdf" [1]).Storable := by
    unfold Fetched.Storable
    rw [sampleBlobs_m1]
    decide
  have hclear : Clear MailState.init.blobs
      (sampleMessage "m1" "a.pdf" [1]).blobs :=
    hstorable.clear (List.Subset.refl _) fun _ hb =>
      absurd hb List.not_mem_nil
  have hrun := run_whole (w := 0) annMailbox (s := MailState.init) rfl
    hclear rfl
  have hiff := bytes_faithful_iff hrun after_self
  rw [after_blobs] at hiff
  rw [← List.append_nil (writes annMailbox _)]
  exact hiff

/-- Two attachments of one name. -/
def namesakes : Fetched :=
  { raw := { (sampleMessage "m1" "a.pdf" [1]).raw with
      attachments :=
        [{ partId := "1", name := "a.pdf", mimeType := "application/pdf"
           size := none, data := some [1] },
         { partId := "2", name := "a.pdf", mimeType := "application/pdf"
           size := none, data := some [2] }] }
    download := fun _ => none }

/-- Both rows of the namesakes have the bytes of the second. -/
theorem namesakes_mixed_up : ¬ ∀ (s s' : MailState) (mb : Mailbox)
    (w : Nat) (f : Fetched) (draw : Draw) (row : IngestionItem),
    Lts.run MailState.step s (whole mb w f draw) = some s' →
    s'.tasks mb w = .returned row true → f.Faithful s'.blobs row := by
  intro hlaw
  have hblobs : namesakes.blobs
      = [(["ingestion".toList, "email".toList, "m1".toList,
          "a.pdf".toList], [2]),
        (["ingestion".toList, "email".toList, "m1".toList,
          "a.pdf".toList], [2])] := by
    decide +kernel
  have hstorable : namesakes.Storable := by
    unfold Fetched.Storable
    rw [hblobs]
    decide
  have hclear : Clear MailState.init.blobs namesakes.blobs :=
    hstorable.clear (List.Subset.refl _) fun _ hb =>
      absurd hb List.not_mem_nil
  have hrun := run_whole (w := 0) annMailbox (s := MailState.init) rfl
    hclear rfl
  have hfaithful := hlaw _ _ annMailbox 0 namesakes _ _ hrun after_self
  have hsame := (item_faithful_iff List.length_range).mp hfaithful
  have hagree := hsame _ List.mem_cons_self 1 [] rfl _
    (List.mem_cons_of_mem _ List.mem_cons_self)
  exact absurd (hagree.name rfl) (by decide)

end LegalBot.Mail
