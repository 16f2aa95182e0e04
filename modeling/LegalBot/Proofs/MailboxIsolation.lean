/-
Whether two mailboxes of different owners interfere. They share the key
of a message, `("email", provider_message_id)`, and the directory tree of
its blobs, `ingestion/email/{provider_message_id}/{name}`: neither names
the mailbox.

# The argument

Two runs are compared: one with both mailboxes, and the same without the
steps of the other (`Isolated`).

- Messages that are `Apart` keep the two runs in step: the run without B
  has the items and the blobs of A's, in the same order (`Follows`). A
  row under A's key is A's, and a file in the way of A's is A's.
- A path may be written by both, with the same bytes. So the latest write
  there may be B's, but it reads like A's (`Follows.get`).
Everything is read off where items, blobs and tasks come from
(`Sources`).
-/
import LegalBot.Ingestion.Email
import LegalBot.Lib.System

namespace LegalBot.Mail

-- ============================================================== statements

/-- What the loop puts for some specs, by the paths. -/
def blobsOf (mapped : MappedItem) (d : List (String × Bytes))
    (specs : List AttachmentSpec) : List (Path × Bytes) :=
  specs.filterMap fun spec => (specBlob mapped d spec).map
    fun (ref, data) => (resolve ref, data)

/-- All the blobs of a message. -/
def Fetched.blobs (f : Fetched) : List (Path × Bytes) :=
  blobsOf (mapEmail f.raw) f.attachmentsBytes
    (mapEmail f.raw).attachments

/-- Two messages that share no key and whose blobs are not in each
other's way. -/
structure Apart (f g : Fetched) : Prop where
  id : f.raw.providerMessageId ≠ g.raw.providerMessageId
  nested : ∀ x ∈ f.blobs, ∀ y ∈ g.blobs, ¬ Nested x.1 y.1
  same : ∀ x ∈ f.blobs, ∀ y ∈ g.blobs, x.1 = y.1 → x.2 = y.2

/-- What is delivered: `P` to the one mailbox, `Q` to the other. -/
def inbox (A : Mailbox) (P Q : Set Fetched) (mb : Mailbox) :
    Set Fetched :=
  if mb = A then P else Q

/-- A step of one of the two mailboxes, on its own messages. -/
structure Allowed (A B : Mailbox) (P Q : Set Fetched) (a : MailAction) :
    Prop where
  mailbox : a.mailbox = A ∨ a.mailbox = B
  deliver : ∀ f, a.op = .deliver f → f ∈ inbox A P Q a.mailbox

/-- The owner has the same in both, and the tasks have come as far. -/
structure SameFor (A : Mailbox) (s t : MailState) : Prop where
  view : s.view A.ownerUserId = t.view A.ownerUserId
  tasks : ∀ w, s.tasks A w = t.tasks A w

/-- In every run of the two mailboxes, A is left as in the run without
the other's steps. -/
def Isolated (A B : Mailbox) (P Q : Set Fetched) : Prop :=
  ∀ acts s, (∀ a ∈ acts, Allowed A B P Q a) →
    Lts.run MailState.step MailState.init acts = some s →
    ∃ t, Lts.run MailState.step MailState.init
        (acts.filter fun a => a.mailbox = A) = some t
      ∧ SameFor A s t

-- ================================================================= lookups

/-- The first element found is still found among those with `p`, if it
is one of them. -/
theorem find?_filter_of_some {α : Type} {p q : α → Bool} {a : α}
    {l : List α} (h : l.find? q = some a) (hp : p a = true) :
    (l.filter p).find? q = some a := by
  induction l with
  | nil => cases h
  | cons b rest ih =>
      by_cases hb : q b = true
      · rw [List.find?_cons_of_pos hb] at h
        injection h with h
        subst h
        rw [List.filter_cons_of_pos hp, List.find?_cons_of_pos hb]
      · rw [List.find?_cons_of_neg hb] at h
        by_cases hpb : p b = true
        · rw [List.filter_cons_of_pos hpb, List.find?_cons_of_neg hb]
          exact ih h
        · rw [List.filter_cons_of_neg hpb]
          exact ih h

theorem find?_filter_none {α : Type} {p q : α → Bool} {l : List α}
    (h : l.find? q = none) : (l.filter p).find? q = none :=
  List.find?_eq_none.mpr fun a ha =>
    List.find?_eq_none.mp h a (List.mem_filter.mp ha).1

theorem Nested.symm {p q : Path} (h : Nested p q) : Nested q p :=
  ⟨h.1.symm, h.2.symm⟩

-- ================================================================= sources

/-- The blob that a reference points to was written by the mailbox. -/
def Referenced (blobs : BlobStore) (mb : Mailbox) (ref : String) : Prop :=
  ∃ b ∈ blobs, b.writer = mb ∧ b.path = resolve ref

/-- An item of a message that was delivered to the mailbox. -/
structure ItemFrom (blobs : BlobStore) (mb : Mailbox) (f : Fetched)
    (r : IngestionItem) : Prop where
  owner : r.ownerUserId = mb.ownerUserId
  source : r.source = "email"
  externalId : r.externalId = f.raw.providerMessageId
  refs : ∀ att ∈ r.attachments, ∀ ref, att.rawUri = some ref →
    Referenced blobs mb ref

/-- A task in the loop over the attachments of a message. -/
structure LoopFrom (blobs : BlobStore) (mb : Mailbox) (f : Fetched)
    (mapped : MappedItem) (d : List (String × Bytes))
    (through rest : List AttachmentSpec) : Prop where
  mapped : mapped = mapEmail f.raw
  d : d = f.attachmentsBytes
  rest : rest ⊆ (mapEmail f.raw).attachments
  refs : ∀ spec ∈ through, ∀ ref, spec.rawUri = some ref →
    Referenced blobs mb ref

def MailPoint.From (blobs : BlobStore) (mb : Mailbox)
    (inbox : Set Fetched) : MailPoint → Prop
  | .blobs mapped d through rest =>
      ∃ f ∈ inbox, LoopFrom blobs mb f mapped d through rest
  | _ => True

/-- Where everything comes from. -/
structure Sources (A B : Mailbox) (P Q : Set Fetched) (s : MailState) :
    Prop where
  items : ∀ r ∈ s.items, ∃ mb, (mb = A ∨ mb = B) ∧
    ∃ f ∈ inbox A P Q mb, ItemFrom s.blobs mb f r
  blobs : ∀ b ∈ s.blobs, (b.writer = A ∨ b.writer = B) ∧
    ∃ f ∈ inbox A P Q b.writer, (b.path, b.data) ∈ f.blobs
  tasks : ∀ mb w, (s.tasks mb w).From s.blobs mb (inbox A P Q mb)

section Sources

variable {A B mb : Mailbox} {P Q : Set Fetched} {s s' : MailState}
  {a : MailAction} {w : Nat} {point : MailPoint} {f : Fetched}
  {blobs blobs' : BlobStore}

/-- More has been written. -/
theorem Referenced.mono {ref : String} (hsub : blobs ⊆ blobs')
    (h : Referenced blobs mb ref) : Referenced blobs' mb ref := by
  obtain ⟨b, hb, hof⟩ := h
  exact ⟨b, hsub hb, hof⟩

theorem MailPoint.From.mono {ms : Set Fetched} (hsub : blobs ⊆ blobs')
    (h : point.From blobs mb ms) : point.From blobs' mb ms := by
  cases point with
  | blobs mapped d through rest =>
      obtain ⟨f, hf, hl⟩ := h
      exact ⟨f, hf, hl.mapped, hl.d, hl.rest,
        fun spec hs ref href => (hl.refs spec hs ref href).mono hsub⟩
  | idle => trivial
  | returned row created => trivial
  | raised => trivial

/-- A task at a point, and every other where it was. -/
theorem moveTo_tasks (s : MailState) (mb mb' : Mailbox) (w w' : Nat)
    (point : MailPoint) :
    (s.moveTo mb w point).tasks mb' w'
      = if mb' = mb ∧ w' = w then point else s.tasks mb' w' := by
  show Function.update s.tasks mb (Function.update (s.tasks mb) w point)
    mb' w' = _
  by_cases hmb : mb' = mb
  · subst hmb
    rw [Function.update_self, Function.update_apply]
    simp
  · rw [Function.update_of_ne hmb, if_neg fun h => hmb h.1]

theorem Sources.moveTo (h : Sources A B P Q s)
    (hp : point.From s.blobs mb (inbox A P Q mb)) :
    Sources A B P Q (s.moveTo mb w point) := by
  refine { items := h.items, blobs := h.blobs, tasks := ?_ }
  intro mb' w'
  rw [moveTo_tasks]
  split
  · rename_i heq
    rw [heq.1]
    exact hp
  · exact h.tasks mb' w'

theorem put_some {ref : String} {data : Bytes}
    (h : blobs.put mb ref data = some blobs') :
    blobs' = ⟨mb, resolve ref, data⟩ :: blobs := by
  unfold BlobStore.put at h
  split at h
  · cases h
  · injection h with h
    exact h.symm

/-- What the loop puts is a blob of the message. -/
theorem specBlob_mem {spec : AttachmentSpec} {ref : String}
    {data : Bytes} (hspec : spec ∈ (mapEmail f.raw).attachments)
    (h : specBlob (mapEmail f.raw) f.attachmentsBytes spec
      = some (ref, data)) : (resolve ref, data) ∈ f.blobs :=
  List.mem_filterMap.mpr ⟨spec, hspec, by rw [h]; rfl⟩

theorem mapEmail_rawUri {spec : AttachmentSpec}
    (hspec : spec ∈ (mapEmail f.raw).attachments) :
    spec.rawUri = none := by
  obtain ⟨att, -, rfl⟩ := List.mem_map.mp hspec
  rfl

/-- One round of the loop. -/
theorem Sources.blob (h : Sources A B P Q s) (hmb : mb = A ∨ mb = B)
    (hs : s.blob mb w = some s') : Sources A B P Q s' := by
  have hfrom := h.tasks mb w
  unfold MailState.blob at hs
  split at hs
  · rename_i mapped d through spec rest hpoint
    rw [hpoint] at hfrom
    obtain ⟨f, hf, hl⟩ := hfrom
    obtain rfl := hl.mapped
    obtain rfl := hl.d
    have hspec := hl.rest List.mem_cons_self
    have hrest := (List.cons_subset.mp hl.rest).2
    split at hs
    · injection hs with hs
      subst hs
      refine h.moveTo ⟨f, hf, rfl, rfl, hrest, ?_⟩
      intro spec' hspec' ref href
      rcases List.mem_append.mp hspec' with hspec' | hspec'
      · exact hl.refs spec' hspec' ref href
      · rw [List.mem_singleton.mp hspec', mapEmail_rawUri hspec] at href
        cases href
    · rename_i ref data hblob
      split at hs
      · injection hs with hs
        subst hs
        exact h.moveTo trivial
      · rename_i blobs hput
        injection hs with hs
        subst hs
        obtain rfl := put_some hput
        have hsub : s.blobs ⊆ ⟨mb, resolve ref, data⟩ :: s.blobs :=
          List.subset_cons_self _ _
        have hwritten : Sources A B P Q
            { s with blobs := ⟨mb, resolve ref, data⟩ :: s.blobs } := by
          refine { items := ?_, blobs := ?_, tasks := ?_ }
          · intro r hr
            obtain ⟨mb', hmb', f', hf', hitem⟩ := h.items r hr
            exact ⟨mb', hmb', f', hf', hitem.owner, hitem.source,
              hitem.externalId, fun att hatt ref' href =>
                (hitem.refs att hatt ref' href).mono hsub⟩
          · intro b hb
            rcases List.mem_cons.mp hb with rfl | hb
            · exact ⟨hmb, f, hf, specBlob_mem hspec hblob⟩
            · exact h.blobs b hb
          · exact fun mb' w' => (h.tasks mb' w').mono hsub
        refine hwritten.moveTo ⟨f, hf, rfl, rfl, hrest, ?_⟩
        intro spec' hspec' ref' href
        rcases List.mem_append.mp hspec' with hspec' | hspec'
        · exact (hl.refs spec' hspec' ref' href).mono hsub
        · rw [List.mem_singleton.mp hspec'] at href
          injection href with href
          exact ⟨_, List.mem_cons_self, rfl, congrArg resolve href⟩
  · cases hs

/-- The transaction. -/
theorem Sources.commit (h : Sources A B P Q s) (hmb : mb = A ∨ mb = B)
    {draw : Draw} (hs : s.commit mb w draw = some s') :
    Sources A B P Q s' := by
  have hfrom := h.tasks mb w
  unfold MailState.commit at hs
  split at hs
  · rename_i mapped d through hpoint
    rw [hpoint] at hfrom
    obtain ⟨f, hf, hl⟩ := hfrom
    obtain rfl := hl.mapped
    split at hs
    · injection hs with hs
      subst hs
      exact h.moveTo trivial
    · simp only at hs
      split at hs
      · injection hs with hs
        subst hs
        have hadded : Sources A B P Q { s with
            items := s.items ++ [newItem mb
              { mapEmail f.raw with attachments := through } draw] } := by
          refine { items := ?_, blobs := h.blobs, tasks := h.tasks }
          intro r hr
          rcases List.mem_append.mp hr with hr | hr
          · exact h.items r hr
          · rw [List.mem_singleton.mp hr]
            refine ⟨mb, hmb, f, hf, rfl, rfl, rfl, ?_⟩
            intro att hatt ref href
            obtain ⟨⟨id, spec⟩, hmem, rfl⟩ := List.mem_map.mp hatt
            exact hl.refs spec (List.of_mem_zip hmem).2 ref href
        exact hadded.moveTo trivial
      · cases hs
  · cases hs

theorem Sources.step (h : Sources A B P Q s) (ha : Allowed A B P Q a)
    (hs : MailState.step a s = some s') : Sources A B P Q s' := by
  unfold MailState.step at hs
  split at hs
  · rename_i f hop
    split at hs
    · cases hs
    · injection hs with hs
      subst hs
      exact h.moveTo ⟨f, ha.deliver f hop, rfl, rfl,
        List.Subset.refl _, fun _ hs => absurd hs List.not_mem_nil⟩
  · exact h.blob ha.mailbox hs
  · exact h.commit ha.mailbox hs
  · injection hs with hs
    subst hs
    exact h.moveTo trivial

theorem Sources.init : Sources A B P Q MailState.init :=
  ⟨fun _ hr => absurd hr List.not_mem_nil,
    fun _ hb => absurd hb List.not_mem_nil, fun _ _ => trivial⟩

end Sources

-- ================================================================= follows

/-- The run without the other mailbox has what is A's. -/
structure Follows (A : Mailbox) (s t : MailState) : Prop where
  items : t.items
    = s.items.filter fun r => r.ownerUserId = A.ownerUserId
  blobs : t.blobs = s.blobs.filter fun b => b.writer = A
  tasks : ∀ w, t.tasks A w = s.tasks A w

section Follows

variable {A B mb : Mailbox} {P Q : Set Fetched} {s s' t : MailState}
  {a : MailAction} {w : Nat} {point : MailPoint} {f : Fetched}

theorem inbox_self : inbox A P Q A = P := if_pos rfl

theorem inbox_other (hne : mb ≠ A) : inbox A P Q mb = Q := if_neg hne

theorem ne_of_owners (hown : A.ownerUserId ≠ B.ownerUserId) : B ≠ A := by
  rintro rfl
  exact hown rfl

theorem filter_own {p : Path} {data : Bytes} (blobs : BlobStore) :
    (⟨A, p, data⟩ :: blobs).filter (fun b => b.writer = A)
      = ⟨A, p, data⟩ :: blobs.filter fun b => b.writer = A := by
  simp

theorem filter_other {p : Path} {data : Bytes} (hne : mb ≠ A)
    (blobs : BlobStore) :
    (⟨mb, p, data⟩ :: blobs).filter (fun b => b.writer = A)
      = blobs.filter fun b => b.writer = A := by
  simp [hne]

theorem filter_own_item {items : List IngestionItem} {r : IngestionItem}
    (hr : r.ownerUserId = A.ownerUserId) :
    (items ++ [r]).filter (fun r => r.ownerUserId = A.ownerUserId)
      = (items.filter fun r => r.ownerUserId = A.ownerUserId) ++ [r] := by
  simp [List.filter_append, hr]

theorem filter_other_item {items : List IngestionItem} {r : IngestionItem}
    (hr : r.ownerUserId ≠ A.ownerUserId) :
    (items ++ [r]).filter (fun r => r.ownerUserId = A.ownerUserId)
      = items.filter fun r => r.ownerUserId = A.ownerUserId := by
  simp [List.filter_append, hr]

theorem Follows.moveTo (h : Follows A s t) :
    Follows A (s.moveTo A w point) (t.moveTo A w point) := by
  refine { items := h.items, blobs := h.blobs, tasks := ?_ }
  intro w'
  rw [moveTo_tasks, moveTo_tasks, h.tasks w']

theorem Follows.moveTo_other (h : Follows A s t) (hne : mb ≠ A) :
    Follows A (s.moveTo mb w point) t := by
  refine { items := h.items, blobs := h.blobs, tasks := ?_ }
  intro w'
  rw [moveTo_tasks, if_neg fun heq => hne heq.1.symm, h.tasks w']

/-- A blob of A's meets the same obstacles in both runs. -/
theorem Follows.put (h : Follows A s t) (hsrc : Sources A B P Q s)
    (hcond : ∀ f ∈ P, ∀ g ∈ Q, Apart f g) (hf : f ∈ P) {ref : String}
    {data : Bytes} (hmem : (resolve ref, data) ∈ f.blobs) :
    t.blobs.put A ref data = (s.blobs.put A ref data).map
      fun blobs => blobs.filter fun b => b.writer = A := by
  have hiff : (∃ b ∈ t.blobs, Nested b.path (resolve ref))
      ↔ ∃ b ∈ s.blobs, Nested b.path (resolve ref) := by
    rw [h.blobs]
    refine ⟨fun ⟨b, hb, hn⟩ => ⟨b, (List.mem_filter.mp hb).1, hn⟩, ?_⟩
    rintro ⟨b, hb, hn⟩
    obtain ⟨-, g, hg, hgb⟩ := hsrc.blobs b hb
    by_cases hw : b.writer = A
    · exact ⟨b, List.mem_filter.mpr ⟨hb, decide_eq_true hw⟩, hn⟩
    · rw [inbox_other hw] at hg
      exact absurd hn.symm ((hcond f hf g hg).nested _ hmem _ hgb)
  unfold BlobStore.put
  by_cases hblocked : resolve ref = []
      ∨ ∃ b ∈ s.blobs, Nested b.path (resolve ref)
  · rw [if_pos hblocked, if_pos (hblocked.imp_right hiff.mpr)]
    rfl
  · rw [if_neg hblocked, if_neg fun hb => hblocked (hb.imp_right hiff.mp),
      h.blobs]
    exact congrArg some (filter_own s.blobs).symm

/-- A row under a key of A's is A's. -/
theorem Follows.find (h : Follows A s t) (hsrc : Sources A B P Q s)
    (hcond : ∀ f ∈ P, ∀ g ∈ Q, Apart f g) (hf : f ∈ P)
    {q : IngestionItem → Bool}
    (hq : ∀ r, q r = true → r.externalId = f.raw.providerMessageId) :
    t.items.find? q = s.items.find? q := by
  rw [h.items]
  cases hfind : s.items.find? q with
  | none => exact find?_filter_none hfind
  | some r =>
      refine find?_filter_of_some hfind ?_
      obtain ⟨mb, -, g, hg, hitem⟩ :=
        hsrc.items r (List.mem_of_find?_eq_some hfind)
      by_cases hmb : mb = A
      · rw [hitem.owner, hmb]
        exact decide_eq_true rfl
      · rw [inbox_other hmb] at hg
        have hid := hq r (List.find?_some hfind)
        exact absurd (hid.symm.trans hitem.externalId)
          (hcond f hf g hg).id

/-- Ids that are new in the one run are new in the other. -/
theorem Follows.fresh (h : Follows A s t) {draw : Draw}
    (hd : draw.Fresh s.items) : draw.Fresh t.items := by
  rw [h.items]
  exact ⟨fun r hr => hd.1 r (List.mem_filter.mp hr).1, hd.2⟩

/-- A step of A's is taken by both. -/
theorem Follows.kept (h : Follows A s t) (hsrc : Sources A B P Q s)
    (hcond : ∀ f ∈ P, ∀ g ∈ Q, Apart f g) (ha : a.mailbox = A)
    (hs : MailState.step a s = some s') :
    ∃ t', MailState.step a t = some t' ∧ Follows A s' t' := by
  obtain ⟨mb, w, op⟩ := a
  obtain rfl : mb = A := ha
  have hfrom := hsrc.tasks mb w
  rw [inbox_self] at hfrom
  cases op with
  | deliver f =>
      unfold MailState.step at hs ⊢
      simp only at hs ⊢
      rw [h.tasks w]
      split at hs
      · cases hs
      · injection hs with hs
        subst hs
        exact ⟨_, rfl, h.moveTo⟩
  | crash =>
      injection hs with hs
      subst hs
      exact ⟨_, rfl, h.moveTo⟩
  | blob =>
      show ∃ t', t.blob mb w = some t' ∧ _
      have hs : s.blob mb w = some s' := hs
      unfold MailState.blob at hs ⊢
      rw [h.tasks w]
      split at hs
      · rename_i mapped d through spec rest hpoint
        rw [hpoint] at hfrom
        obtain ⟨f, hf, hl⟩ := hfrom
        obtain rfl := hl.mapped
        obtain rfl := hl.d
        have hspec := hl.rest List.mem_cons_self
        split at hs
        · rename_i hblob
          injection hs with hs
          subst hs
          exact ⟨_, rfl, h.moveTo⟩
        · rename_i ref data hblob
          rw [h.put hsrc hcond hf (specBlob_mem hspec hblob)]
          split at hs
          · rename_i hput
            rw [hput]
            injection hs with hs
            subst hs
            exact ⟨_, rfl, h.moveTo⟩
          · rename_i blobs hput
            rw [hput]
            injection hs with hs
            subst hs
            refine ⟨_, rfl, Follows.moveTo ?_⟩
            exact { items := h.items, blobs := rfl, tasks := h.tasks }
      · cases hs
  | commit draw =>
      show ∃ t', t.commit mb w draw = some t' ∧ _
      have hs : s.commit mb w draw = some s' := hs
      unfold MailState.commit at hs ⊢
      rw [h.tasks w]
      split at hs
      · rename_i mapped d through hpoint
        rw [hpoint] at hfrom
        obtain ⟨f, hf, hl⟩ := hfrom
        obtain rfl := hl.mapped
        simp only
        rw [h.find hsrc hcond hf fun r hr => (of_decide_eq_true hr).2]
        split at hs
        · injection hs with hs
          subst hs
          exact ⟨_, rfl, h.moveTo⟩
        · simp only at hs
          split at hs
          · rename_i hd
            injection hs with hs
            subst hs
            rw [if_pos ⟨h.fresh hd.1, hd.2⟩]
            refine ⟨_, rfl, Follows.moveTo ?_⟩
            refine { items := ?_, blobs := h.blobs, tasks := h.tasks }
            exact h.items ▸ (filter_own_item rfl).symm
          · cases hs
      · cases hs

/-- A step of B's leaves what is A's. -/
theorem Follows.left (h : Follows A s t)
    (hown : A.ownerUserId ≠ B.ownerUserId) (ha : a.mailbox = B)
    (hs : MailState.step a s = some s') : Follows A s' t := by
  obtain ⟨mb, w, op⟩ := a
  obtain rfl : mb = B := ha
  have hne := ne_of_owners hown
  cases op with
  | deliver f =>
      unfold MailState.step at hs
      simp only at hs
      split at hs
      · cases hs
      · injection hs with hs
        subst hs
        exact h.moveTo_other hne
  | crash =>
      injection hs with hs
      subst hs
      exact h.moveTo_other hne
  | blob =>
      have hs : s.blob mb w = some s' := hs
      unfold MailState.blob at hs
      split at hs
      · split at hs
        · injection hs with hs
          subst hs
          exact h.moveTo_other hne
        · split at hs
          · injection hs with hs
            subst hs
            exact h.moveTo_other hne
          · rename_i blobs hput
            injection hs with hs
            subst hs
            obtain rfl := put_some hput
            refine Follows.moveTo_other ?_ hne
            refine { items := h.items, blobs := ?_, tasks := h.tasks }
            exact h.blobs.trans (filter_other hne s.blobs).symm
      · cases hs
  | commit draw =>
      have hs : s.commit mb w draw = some s' := hs
      unfold MailState.commit at hs
      split at hs
      · split at hs
        · injection hs with hs
          subst hs
          exact h.moveTo_other hne
        · simp only at hs
          split at hs
          · injection hs with hs
            subst hs
            refine Follows.moveTo_other ?_ hne
            refine { items := ?_, blobs := h.blobs, tasks := h.tasks }
            exact h.items.trans (filter_other_item hown.symm).symm
          · cases hs
      · cases hs

/-- What A wrote reads alike, even if B has written it again. -/
theorem Follows.get (h : Follows A s t) (hsrc : Sources A B P Q s)
    (hcond : ∀ f ∈ P, ∀ g ∈ Q, Apart f g) {ref : String}
    (href : Referenced s.blobs A ref) :
    t.blobs.get ref = s.blobs.get ref := by
  obtain ⟨b₀, hb₀, hw₀, hp₀⟩ := href
  unfold BlobStore.get BlobStore.at
  rw [h.blobs]
  cases hfind : s.blobs.find? fun b => b.path = resolve ref with
  | none =>
      exact absurd (decide_eq_true hp₀)
        (List.find?_eq_none.mp hfind b₀ hb₀)
  | some b =>
      have hp : b.path = resolve ref := by
        simpa using List.find?_some hfind
      by_cases hw : b.writer = A
      · rw [find?_filter_of_some hfind (decide_eq_true hw)]
      cases hfind' : (s.blobs.filter fun b => b.writer = A).find?
          fun b => b.path = resolve ref with
      | none =>
          have hmem : b₀ ∈ s.blobs.filter fun b => b.writer = A :=
            List.mem_filter.mpr ⟨hb₀, decide_eq_true hw₀⟩
          exact absurd (decide_eq_true hp₀)
            (List.find?_eq_none.mp hfind' b₀ hmem)
      | some b' =>
          have hp' : b'.path = resolve ref := by
            simpa using List.find?_some hfind'
          obtain ⟨hb', hw'⟩ :=
            List.mem_filter.mp (List.mem_of_find?_eq_some hfind')
          obtain ⟨-, f, hf, hfb⟩ := hsrc.blobs b' hb'
          obtain ⟨-, g, hg, hgb⟩ :=
            hsrc.blobs b (List.mem_of_find?_eq_some hfind)
          rw [of_decide_eq_true hw', inbox_self] at hf
          rw [inbox_other hw] at hg
          have hdata := (hcond f hf g hg).same _ hfb _ hgb
            (hp'.trans hp.symm)
          exact congrArg some hdata

theorem Follows.view (h : Follows A s t) (hsrc : Sources A B P Q s)
    (hown : A.ownerUserId ≠ B.ownerUserId)
    (hcond : ∀ f ∈ P, ∀ g ∈ Q, Apart f g) :
    s.view A.ownerUserId = t.view A.ownerUserId := by
  unfold MailState.view
  rw [h.items, List.filter_filter]
  simp only [Bool.and_self]
  refine List.map_congr_left fun r hr => ?_
  obtain ⟨hmem, howner⟩ := List.mem_filter.mp hr
  obtain ⟨mb, hmb, f, -, hitem⟩ := hsrc.items r hmem
  obtain rfl : mb = A := by
    rcases hmb with rfl | rfl
    · rfl
    · have hsame := hitem.owner.symm.trans (of_decide_eq_true howner)
      exact absurd hsame.symm hown
  congr 1
  refine List.map_congr_left fun att hatt => ?_
  cases href : att.rawUri with
  | none => rfl
  | some ref =>
      exact (h.get hsrc hcond (hitem.refs att hatt ref href)).symm

end Follows

/-- Mailboxes whose messages are apart do not interfere. -/
theorem isolated_of_apart {A B : Mailbox} {P Q : Set Fetched}
    (hown : A.ownerUserId ≠ B.ownerUserId)
    (hcond : ∀ f ∈ P, ∀ g ∈ Q, Apart f g) : Isolated A B P Q := by
  intro acts s hacts hrun
  have hkept : ∀ a ∈ acts, decide (a.mailbox = A) = true →
      ∀ s t s', Follows A s t ∧ Sources A B P Q s →
        MailState.step a s = some s' →
        ∃ t', MailState.step a t = some t'
          ∧ Follows A s' t' ∧ Sources A B P Q s' := by
    rintro a ha hmb s t s' ⟨hf, hsrc⟩ hs
    obtain ⟨t', ht', hf'⟩ :=
      hf.kept hsrc hcond (of_decide_eq_true hmb) hs
    exact ⟨t', ht', hf', hsrc.step (hacts a ha) hs⟩
  have hleft : ∀ a ∈ acts, decide (a.mailbox = A) = false →
      ∀ s t s', Follows A s t ∧ Sources A B P Q s →
        MailState.step a s = some s' →
        Follows A s' t ∧ Sources A B P Q s' := by
    rintro a ha hmb s t s' ⟨hf, hsrc⟩ hs
    have hB := (hacts a ha).mailbox.resolve_left (of_decide_eq_false hmb)
    exact ⟨hf.left hown hB hs, hsrc.step (hacts a ha) hs⟩
  have hinit : Follows A MailState.init MailState.init :=
    ⟨rfl, rfl, fun _ => rfl⟩
  obtain ⟨t, ht, hf, hsrc⟩ :=
    Lts.run_filter hkept hleft ⟨hinit, Sources.init⟩ hrun
  exact ⟨t, ht, hf.view hsrc hown hcond, fun w => (hf.tasks w).symm⟩

end LegalBot.Mail
