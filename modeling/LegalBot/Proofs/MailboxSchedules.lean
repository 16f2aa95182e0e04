/-
Two messages that are not apart, and each of which can be ingested by
itself (`Fetched.Storable`), interfere. Three schedules show it:

- a blob of one is in the way of a blob of the other: B writes all its
  blobs, and A's task stops at an obstacle;
- both have a blob at one path, with different bytes: A ingests its
  message and delivers it again, B's blob comes last;
- both have one id: B ingests its message, and A's task finds B's item.

`run_rounds` and `run_whole` replay the pieces they are made of.
-/
import LegalBot.Proofs.MailboxIsolation

namespace LegalBot.Mail

/-- Nothing of the message is in the way of its own blobs. -/
def Fetched.Storable (f : Fetched) : Prop :=
  ∀ x ∈ f.blobs, x.1 ≠ [] ∧ ∀ y ∈ f.blobs, ¬ Nested x.1 y.1

-- ================================================================== pieces

/-- A delivery and `k` rounds of its loop. -/
def attempt (mb : Mailbox) (w : Nat) (f : Fetched) (k : Nat) :
    List MailAction :=
  ⟨mb, w, .deliver f⟩ :: List.replicate k ⟨mb, w, .blob⟩

/-- The blobs can be written one after the other. -/
def Clear (blobs : BlobStore) (bs : List (Path × Bytes)) : Prop :=
  ∀ x ∈ bs, x.1 ≠ [] ∧ (∀ b ∈ blobs, ¬ Nested b.path x.1)
    ∧ ∀ y ∈ bs, ¬ Nested x.1 y.1

/-- What they leave, the latest first. -/
def writes (mb : Mailbox) (bs : List (Path × Bytes)) : BlobStore :=
  (bs.map fun x => ⟨mb, x.1, x.2⟩).reverse

/-- After a task has written blobs and come to a point. -/
def MailState.after (s : MailState) (mb : Mailbox) (w : Nat)
    (bs : List (Path × Bytes)) (point : MailPoint) : MailState :=
  { s with blobs := writes mb bs ++ s.blobs }.moveTo mb w point

/-- The blobs of some of the attachments. -/
def Fetched.blobsOf (f : Fetched) (specs : List AttachmentSpec) :
    List (Path × Bytes) :=
  Mail.blobsOf (mapEmail f.raw) f.attachmentsBytes specs

/-- A spec after its round. -/
def roundOf (mapped : MappedItem) (d : List (String × Bytes))
    (spec : AttachmentSpec) : AttachmentSpec :=
  match specBlob mapped d spec with
  | none => spec
  | some (ref, data) => spec.stored ref data

/-- A task in its loop. -/
def Fetched.loop (f : Fetched) (through rest : List AttachmentSpec) :
    MailPoint :=
  .blobs (mapEmail f.raw) f.attachmentsBytes
    (through.map (roundOf (mapEmail f.raw) f.attachmentsBytes)) rest

/-- The whole task. -/
def whole (mb : Mailbox) (w : Nat) (f : Fetched) (draw : Draw) :
    List MailAction :=
  attempt mb w f (mapEmail f.raw).attachments.length
    ++ [⟨mb, w, .commit draw⟩]

/-- The item it inserts. -/
def Fetched.item (f : Fetched) (mb : Mailbox) (draw : Draw) :
    IngestionItem :=
  newItem mb { mapEmail f.raw with
    attachments := (mapEmail f.raw).attachments.map
      (roundOf (mapEmail f.raw) f.attachmentsBytes) } draw

section Pieces

variable {mb mb' : Mailbox} {w w' : Nat} {s : MailState} {f : Fetched}
  {mapped : MappedItem} {d : List (String × Bytes)}
  {through rest specs : List AttachmentSpec} {point point' : MailPoint}
  {bs : List (Path × Bytes)}

theorem writes_append (xs ys : List (Path × Bytes)) :
    writes mb (xs ++ ys) = writes mb ys ++ writes mb xs := by
  unfold writes
  rw [List.map_append, List.reverse_append]

theorem after_self : (s.after mb w bs point).tasks mb w = point := by
  unfold MailState.after
  rw [moveTo_tasks, if_pos ⟨rfl, rfl⟩]

theorem after_other (hne : ¬ (mb' = mb ∧ w' = w)) :
    (s.after mb w bs point).tasks mb' w' = s.tasks mb' w' := by
  unfold MailState.after
  rw [moveTo_tasks, if_neg hne]

theorem after_blobs :
    (s.after mb w bs point).blobs = writes mb bs ++ s.blobs := rfl

/-- The last point counts, and all the blobs. -/
theorem after_after (xs ys : List (Path × Bytes)) :
    (s.after mb w xs point).after mb w ys point'
      = s.after mb w (xs ++ ys) point' := by
  unfold MailState.after MailState.moveTo
  simp only [Function.update_self, Function.update_idem, writes_append,
    List.append_assoc]

theorem blobsOf_cons (spec : AttachmentSpec)
    (specs : List AttachmentSpec) :
    blobsOf mapped d (spec :: specs)
      = blobsOf mapped d [spec] ++ blobsOf mapped d specs := by
  unfold blobsOf
  rw [← List.filterMap_append, List.singleton_append]

/-- What is written leaves the rest clear. -/
theorem Clear.tail {blobs : BlobStore} {xs ys : List (Path × Bytes)}
    (h : Clear blobs (xs ++ ys)) :
    Clear blobs xs ∧ Clear (writes mb xs ++ blobs) ys := by
  refine ⟨fun x hx => ?_, fun y hy => ?_⟩
  · obtain ⟨hroot, hway, hown⟩ := h x (List.mem_append_left _ hx)
    exact ⟨hroot, hway, fun x' hx' =>
      hown x' (List.mem_append_left _ hx')⟩
  · obtain ⟨hroot, hway, hown⟩ := h y (List.mem_append_right _ hy)
    refine ⟨hroot, fun b hb => ?_, fun y' hy' =>
      hown y' (List.mem_append_right _ hy')⟩
    rcases List.mem_append.mp hb with hb | hb
    · obtain ⟨x, hx, rfl⟩ := List.mem_map.mp (List.mem_reverse.mp hb)
      exact fun hn => hown x (List.mem_append_left _ hx) hn.symm
    · exact hway b hb

/-- One unobstructed round. -/
theorem blob_round {spec : AttachmentSpec}
    (hpoint : s.tasks mb w = .blobs mapped d through (spec :: rest))
    (hclear : Clear s.blobs (blobsOf mapped d [spec])) :
    s.blob mb w = some (s.after mb w (blobsOf mapped d [spec])
      (.blobs mapped d (through ++ [roundOf mapped d spec]) rest)) := by
  unfold MailState.blob
  rw [hpoint]
  unfold roundOf
  cases hblob : specBlob mapped d spec with
  | none =>
      have hbs : blobsOf mapped d [spec] = [] := by
        simp [blobsOf, hblob]
      rw [hbs]
      simp only
      rw [hblob]
      rfl
  | some x =>
      obtain ⟨ref, data⟩ := x
      have hbs : blobsOf mapped d [spec] = [(resolve ref, data)] := by
        simp [blobsOf, hblob]
      rw [hbs] at hclear ⊢
      obtain ⟨hroot, hway, -⟩ := hclear _ (List.mem_singleton_self _)
      have hput : s.blobs.put mb ref data
          = some (⟨mb, resolve ref, data⟩ :: s.blobs) := by
        unfold BlobStore.put
        refine if_neg ?_
        rintro (hempty | ⟨b, hb, hn⟩)
        · exact hroot hempty
        · exact hway b hb hn
      simp only
      rw [hblob]
      simp only [hput]
      rfl

/-- Unobstructed rounds. -/
theorem run_rounds : ∀ {s : MailState} {through : List AttachmentSpec},
    s.tasks mb w = .blobs mapped d through (specs ++ rest) →
    Clear s.blobs (blobsOf mapped d specs) →
    Lts.run MailState.step s (List.replicate specs.length ⟨mb, w, .blob⟩)
      = some (s.after mb w (blobsOf mapped d specs) (.blobs mapped d
          (through ++ specs.map (roundOf mapped d)) rest)) := by
  induction specs with
  | nil =>
      intro s through hpoint _
      show some s = some _
      congr 1
      unfold MailState.after MailState.moveTo
      rw [List.map_nil, List.append_nil, ← List.nil_append rest, ← hpoint,
        Function.update_eq_self, Function.update_eq_self]
      rfl
  | cons spec specs ih =>
      intro s through hpoint hclear
      rw [blobsOf_cons spec specs] at hclear ⊢
      rw [List.cons_append] at hpoint
      obtain ⟨hfirst, hrest⟩ := Clear.tail hclear
      have hround : MailState.step ⟨mb, w, .blob⟩ s = some _ :=
        blob_round hpoint hfirst
      rw [List.length_cons, List.replicate_succ, Lts.run, hround]
      simp only
      rw [ih after_self hrest, after_after, List.map_cons,
        ← List.append_cons]

/-- An unobstructed delivery. -/
theorem run_attempt (mb : Mailbox) {xs ys : List AttachmentSpec}
    (hidle : s.tasks mb w = .idle)
    (hspecs : (mapEmail f.raw).attachments = xs ++ ys)
    (hclear : Clear s.blobs (f.blobsOf xs)) :
    Lts.run MailState.step s (attempt mb w f xs.length)
      = some (s.after mb w (f.blobsOf xs) (f.loop xs ys)) := by
  have hdeliver : MailState.step ⟨mb, w, .deliver f⟩ s
      = some (s.after mb w [] (f.loop [] (xs ++ ys))) := by
    unfold MailState.step
    simp only [hidle]
    rw [← hspecs]
    rfl
  have hrounds : Lts.run MailState.step
      (s.after mb w [] (f.loop [] (xs ++ ys)))
      (List.replicate xs.length ⟨mb, w, .blob⟩)
      = some ((s.after mb w [] (f.loop [] (xs ++ ys))).after mb w
          (f.blobsOf xs) (f.loop xs ys)) :=
    run_rounds after_self hclear
  rw [attempt, Lts.run, hdeliver]
  simp only
  rw [hrounds, after_after]
  rfl

/-- The transaction finds the item. -/
theorem commit_found {row : IngestionItem} {draw : Draw}
    (hpoint : s.tasks mb w = .blobs mapped d through [])
    (hfind : (s.items.find? fun r => r.source = mapped.source
      ∧ r.externalId = mapped.externalId) = some row) :
    s.commit mb w draw = some (s.moveTo mb w (.returned row false)) := by
  unfold MailState.commit
  rw [hpoint]
  simp only
  rw [hfind]

/-- The transaction inserts the item. -/
theorem commit_new {draw : Draw}
    (hpoint : s.tasks mb w = .blobs mapped d through [])
    (hfind : (s.items.find? fun r => r.source = mapped.source
      ∧ r.externalId = mapped.externalId) = none)
    (hdraw : draw.Fresh s.items)
    (hlen : draw.attachmentIds.length = through.length) :
    s.commit mb w draw = some ({ s with
        items := s.items ++
          [newItem mb { mapped with attachments := through } draw] }.moveTo
      mb w (.returned
        (newItem mb { mapped with attachments := through } draw)
        true)) := by
  unfold MailState.commit
  rw [hpoint]
  simp only
  rw [hfind]
  simp only
  rw [if_pos ⟨hdraw, hlen⟩]

theorem run_found {row : IngestionItem} {draw : Draw}
    (hidle : s.tasks mb w = .idle) (hclear : Clear s.blobs f.blobs)
    (hfind : (s.items.find? fun r => r.source = "email"
      ∧ r.externalId = f.raw.providerMessageId) = some row) :
    Lts.run MailState.step s (whole mb w f draw)
      = some (s.after mb w f.blobs (.returned row false)) := by
  have hloop := run_attempt _ hidle (List.append_nil _).symm hclear
  have hcommit : MailState.step ⟨mb, w, .commit draw⟩
      (s.after mb w f.blobs (f.loop (mapEmail f.raw).attachments []))
      = some ((s.after mb w f.blobs _).moveTo mb w
          (.returned row false)) :=
    commit_found after_self hfind
  refine (Lts.run_append hloop).trans ((Lts.run_one hcommit).trans ?_)
  exact congrArg some ((after_after f.blobs []).trans
    (by rw [List.append_nil]))

theorem run_new {draw : Draw} (hidle : s.tasks mb w = .idle)
    (hclear : Clear s.blobs f.blobs)
    (hfind : (s.items.find? fun r => r.source = "email"
      ∧ r.externalId = f.raw.providerMessageId) = none)
    (hdraw : draw.Fresh s.items)
    (hlen : draw.attachmentIds.length
      = (mapEmail f.raw).attachments.length) :
    Lts.run MailState.step s (whole mb w f draw)
      = some ({ s with items := s.items ++ [f.item mb draw] }.after mb w
          f.blobs (.returned (f.item mb draw) true)) := by
  have hloop := run_attempt _ hidle (List.append_nil _).symm hclear
  have hcommit : MailState.step ⟨mb, w, .commit draw⟩
      (s.after mb w f.blobs (f.loop (mapEmail f.raw).attachments []))
      = some ({ s.after mb w f.blobs _ with
            items := s.items ++ [f.item mb draw] }.moveTo mb w
          (.returned (f.item mb draw) true)) :=
    commit_new after_self hfind hdraw (by rw [List.length_map, hlen])
  refine (Lts.run_append hloop).trans ((Lts.run_one hcommit).trans ?_)
  exact congrArg some (after_after (s := { s with
    items := s.items ++ [f.item mb draw] }) f.blobs [] |>.trans
      (by rw [List.append_nil]))

end Pieces

-- =============================================================== schedules

/-- Steps of one mailbox, all for one message. -/
def StepsOf (mb : Mailbox) (f : Fetched) (acts : List MailAction) : Prop :=
  ∀ a ∈ acts, a.mailbox = mb ∧ ∀ f', a.op = .deliver f' → f' = f

/-- Any ids will do. -/
def Fetched.draw (f : Fetched) : Draw :=
  { itemId := 0, jobId := 0
    attachmentIds := List.range (mapEmail f.raw).attachments.length
    now := 0 }

section Schedules

variable {A B mb : Mailbox} {P Q : Set Fetched} {f g : Fetched}
  {w : Nat} {draw : Draw} {specs xs ys : List AttachmentSpec}
  {spec : AttachmentSpec} {blobs : BlobStore} {k : Nat}

theorem attempt_of : StepsOf mb f (attempt mb w f k) := by
  intro a ha
  rcases List.mem_cons.mp ha with rfl | ha
  · exact ⟨rfl, fun f' h => (MailOp.deliver.inj h).symm⟩
  · rw [List.eq_of_mem_replicate ha]
    exact ⟨rfl, fun f' h => by cases h⟩

theorem whole_of : StepsOf mb f (whole mb w f draw) := by
  intro a ha
  rcases List.mem_append.mp ha with ha | ha
  · exact attempt_of a ha
  · rw [List.mem_singleton.mp ha]
    exact ⟨rfl, fun f' h => by cases h⟩

theorem StepsOf.append {xs ys : List MailAction} (hxs : StepsOf mb f xs)
    (hys : StepsOf mb f ys) : StepsOf mb f (xs ++ ys) :=
  List.forall_mem_append.mpr ⟨hxs, hys⟩

/-- They are allowed, and are kept or left out as a whole. -/
theorem StepsOf.allowed {acts : List MailAction} (h : StepsOf mb f acts)
    (hmb : mb = A ∨ mb = B) (hf : f ∈ inbox A P Q mb) :
    ∀ a ∈ acts, Allowed A B P Q a := by
  intro a ha
  obtain ⟨hof, hdeliver⟩ := h a ha
  refine { mailbox := hof ▸ hmb, deliver := fun f' hop => ?_ }
  rw [hof, hdeliver f' hop]
  exact hf

theorem StepsOf.kept {acts : List MailAction} (h : StepsOf A f acts) :
    acts.filter (fun a => a.mailbox = A) = acts :=
  List.filter_eq_self.mpr fun a ha => decide_eq_true (h a ha).1

theorem StepsOf.left {acts : List MailAction} (hne : B ≠ A)
    (h : StepsOf B f acts) :
    acts.filter (fun a => a.mailbox = A) = [] :=
  List.filter_eq_nil_iff.mpr fun a ha hmb =>
    hne ((h a ha).1.symm.trans (of_decide_eq_true hmb))

/-- Blobs of a storable message are clear where no blob of another is in
their way. -/
theorem clear_of {bs : List (Path × Bytes)} (hg : g.Storable)
    (hbs : bs ⊆ g.blobs)
    (hway : ∀ b ∈ blobs, ∃ x ∈ f.blobs, b.path = x.1)
    (hn : ∀ x ∈ f.blobs, ∀ y ∈ g.blobs, ¬ Nested x.1 y.1) :
    Clear blobs bs := by
  intro y hy
  obtain ⟨hroot, hown⟩ := hg y (hbs hy)
  refine ⟨hroot, fun b hb => ?_, fun y' hy' => hown y' (hbs hy')⟩
  obtain ⟨x, hx, hpath⟩ := hway b hb
  rw [hpath]
  exact hn x hx y (hbs hy)

theorem mem_writes {bs : List (Path × Bytes)} {b : BlobWrite}
    (hb : b ∈ writes mb bs) : ∃ x ∈ bs, b.path = x.1 := by
  obtain ⟨x, hx, rfl⟩ := List.mem_map.mp (List.mem_reverse.mp hb)
  exact ⟨x, hx, rfl⟩

theorem blobsOf_subset (hsub : specs ⊆ (mapEmail f.raw).attachments) :
    f.blobsOf specs ⊆ f.blobs := by
  intro x hx
  obtain ⟨spec, hspec, h⟩ := List.mem_filterMap.mp hx
  exact List.mem_filterMap.mpr ⟨spec, hsub hspec, h⟩

/-- The delivery stops before a blob, and after it. -/
theorem split_at_blob {x : Path × Bytes} (hx : x ∈ f.blobs) :
    ∃ xs spec ys, (mapEmail f.raw).attachments = xs ++ spec :: ys
      ∧ f.blobsOf [spec] = [x] := by
  obtain ⟨spec, hspec, h⟩ := List.mem_filterMap.mp hx
  obtain ⟨xs, ys, hsplit⟩ := List.append_of_mem hspec
  refine ⟨xs, spec, ys, hsplit, ?_⟩
  simp only [Fetched.blobsOf, blobsOf, List.filterMap_cons, h,
    List.filterMap_nil]

theorem mem_blobsOf {x : Path × Bytes} (hx : x ∈ f.blobsOf specs) :
    ∃ spec ∈ specs, x ∈ f.blobsOf [spec] := by
  obtain ⟨spec, hspec, h⟩ := List.mem_filterMap.mp hx
  exact ⟨spec, hspec, List.mem_filterMap.mpr
    ⟨spec, List.mem_singleton_self _, h⟩⟩

theorem attempt_succ : attempt mb w f (k + 1)
    = attempt mb w f k ++ [⟨mb, w, .blob⟩] := by
  unfold attempt
  rw [List.replicate_succ', List.cons_append]

/-- A storable message is not in its own way. -/
theorem Fetched.Storable.clear {bs : List (Path × Bytes)}
    (hf : f.Storable) (hbs : bs ⊆ f.blobs)
    (hway : ∀ b ∈ blobs, ∃ x ∈ f.blobs, b.path = x.1) : Clear blobs bs :=
  clear_of hf hbs hway fun x hx y hy => (hf x hx).2 y hy

/-- A round ends at an obstacle. -/
theorem round_raises {s : MailState}
    {through rest : List AttachmentSpec} {x : Path × Bytes}
    (hpoint : s.tasks mb w = f.loop through (spec :: rest))
    (hx : x ∈ f.blobsOf [spec])
    (hway : ∃ b ∈ s.blobs, Nested b.path x.1) :
    MailState.step ⟨mb, w, .blob⟩ s = some (s.moveTo mb w .raised) := by
  obtain ⟨spec', hspec', h⟩ := List.mem_filterMap.mp hx
  rw [List.mem_singleton.mp hspec'] at h
  obtain ⟨⟨ref, data⟩, hblob, rfl⟩ := Option.map_eq_some_iff.mp h
  have hput : s.blobs.put mb ref data = none := if_pos (Or.inr hway)
  show s.blob mb w = _
  unfold MailState.blob
  rw [hpoint]
  unfold Fetched.loop
  simp only
  rw [hblob]
  simp only [hput]

/-- A delivery that meets an obstacle in its round for `spec`. -/
theorem run_blocked {s : MailState} {x : Path × Bytes}
    (hidle : s.tasks mb w = .idle)
    (hspecs : (mapEmail f.raw).attachments = xs ++ spec :: ys)
    (hclear : Clear s.blobs (f.blobsOf xs)) (hx : x ∈ f.blobsOf [spec])
    (hway : ∃ b ∈ s.blobs, Nested b.path x.1) :
    Lts.run MailState.step s (attempt mb w f (xs.length + 1))
      = some (s.after mb w (f.blobsOf xs) .raised) := by
  obtain ⟨b, hb, hn⟩ := hway
  have hloop := run_attempt _ hidle hspecs hclear
  have hraise : MailState.step ⟨mb, w, .blob⟩
      (s.after mb w (f.blobsOf xs) (f.loop xs (spec :: ys)))
      = some ((s.after mb w (f.blobsOf xs) _).moveTo mb w .raised) :=
    round_raises after_self hx ⟨b, List.mem_append_right _ hb, hn⟩
  rw [attempt_succ]
  refine (Lts.run_append hloop).trans ((Lts.run_one hraise).trans ?_)
  exact congrArg some ((after_after (f.blobsOf xs) []).trans
    (by rw [List.append_nil]))

/-- The whole task, where there is no item yet. -/
theorem run_whole (mb : Mailbox) {s : MailState}
    (hidle : s.tasks mb w = .idle)
    (hclear : Clear s.blobs f.blobs) (hitems : s.items = []) :
    Lts.run MailState.step s
        (whole mb w f f.draw)
      = some ({ s with items := [f.item mb f.draw] }.after mb w f.blobs
          (.returned (f.item mb f.draw) true)) := by
  have hfresh : f.draw.Fresh s.items := by
    rw [hitems]
    exact ⟨fun r hr => absurd hr List.not_mem_nil, List.nodup_range⟩
  have hrun := run_new hidle hclear (by rw [hitems]; rfl) hfresh
    List.length_range
  rw [hitems] at hrun
  exact hrun

/-- A list with an element that meets `p` splits at the first. -/
theorem split_first {α : Type} {p : α → Prop} {l : List α}
    (h : ∃ a ∈ l, p a) :
    ∃ xs a ys, l = xs ++ a :: ys ∧ p a ∧ ∀ b ∈ xs, ¬ p b := by
  induction l with
  | nil =>
      obtain ⟨a, ha, -⟩ := h
      cases ha
  | cons b rest ih =>
      by_cases hb : p b
      · exact ⟨[], b, rest, rfl, hb, fun _ h => absurd h List.not_mem_nil⟩
      · obtain ⟨a, ha, hpa⟩ := h
        have hrest : ∃ a ∈ rest, p a := by
          rcases List.mem_cons.mp ha with rfl | ha
          · exact absurd hpa hb
          · exact ⟨a, ha, hpa⟩
        obtain ⟨xs, a', ys, rfl, hpa', hxs⟩ := ih hrest
        refine ⟨b :: xs, a', ys, rfl, hpa', fun c hc => ?_⟩
        rcases List.mem_cons.mp hc with rfl | hc
        · exact hb
        · exact hxs c hc

/-- A blob of B's in the way of one of A's. -/
theorem nested_interferes (hown : A.ownerUserId ≠ B.ownerUserId)
    (hf : f ∈ P) (hg : g ∈ Q) (hsf : f.Storable) (hsg : g.Storable)
    (hn : ∃ x ∈ f.blobs, ∃ y ∈ g.blobs, Nested x.1 y.1) :
    ¬ Isolated A B P Q := by
  intro hiso
  have hne := ne_of_owners hown
  -- A's task stops in its round for `spec`
  obtain ⟨xs, spec, ys, hspecs, ⟨x, hx, y, hy, hxy⟩, hfirst⟩ :
      ∃ xs spec ys, (mapEmail f.raw).attachments = xs ++ spec :: ys
        ∧ (∃ x ∈ f.blobsOf [spec], ∃ y ∈ g.blobs, Nested x.1 y.1)
        ∧ ∀ spec' ∈ xs, ¬ ∃ x ∈ f.blobsOf [spec'],
          ∃ y ∈ g.blobs, Nested x.1 y.1 := by
    refine split_first ?_
    obtain ⟨x, hx, hway⟩ := hn
    obtain ⟨xs, spec, ys, hspecs, hblob⟩ := split_at_blob hx
    refine ⟨spec, ?_, x, ?_, hway⟩
    · rw [hspecs]
      exact List.mem_append_right _ List.mem_cons_self
    · rw [hblob]
      exact List.mem_singleton_self _
  have hsplit : (mapEmail f.raw).attachments = (xs ++ [spec]) ++ ys :=
    hspecs.trans (List.append_cons xs spec ys)
  have hsub : xs ⊆ (mapEmail f.raw).attachments := by
    rw [hspecs]
    exact List.subset_append_left _ _
  have hsub' : xs ++ [spec] ⊆ (mapEmail f.raw).attachments := by
    rw [hsplit]
    exact List.subset_append_left _ _
  -- with B's blobs in the store
  have hB := run_attempt B (s := .init) (w := 0) rfl
    (List.append_nil _).symm
    (hsg.clear (List.Subset.refl _) fun b hb => absurd hb List.not_mem_nil)
  obtain ⟨sB, hsB⟩ : ∃ sB, sB = MailState.init.after B 0 g.blobs
    (g.loop (mapEmail g.raw).attachments []) := ⟨_, rfl⟩
  have hblobs : sB.blobs = writes B g.blobs := by
    rw [hsB]
    exact List.append_nil _
  have hidle : sB.tasks A 0 = .idle :=
    hsB ▸ after_other fun h => hne h.1.symm
  have hclear : Clear sB.blobs (f.blobsOf xs) := by
    intro x' hx'
    obtain ⟨hroot, hself⟩ := hsf x' (blobsOf_subset hsub hx')
    refine ⟨hroot, fun b hb hnest => ?_, fun y' hy' =>
      hself y' (blobsOf_subset hsub hy')⟩
    obtain ⟨spec', hspec', hmem⟩ := mem_blobsOf hx'
    rw [hblobs] at hb
    obtain ⟨y', hy', hpath⟩ := mem_writes hb
    exact hfirst spec' hspec' ⟨x', hmem, y', hy', hpath ▸ hnest.symm⟩
  have hway : ∃ b ∈ sB.blobs, Nested b.path x.1 := by
    refine ⟨⟨B, y.1, y.2⟩, ?_, hxy.symm⟩
    rw [hblobs]
    exact List.mem_reverse.mpr (List.mem_map_of_mem hy)
  have hA := run_blocked hidle hspecs hclear hx hway
  -- and without
  have halone := run_attempt A (s := .init) (w := 0) rfl hsplit
    (hsf.clear (blobsOf_subset hsub')
      fun b hb => absurd hb List.not_mem_nil)
  rw [List.length_append] at halone
  obtain ⟨t, ht, hsame⟩ := hiso
    (attempt B 0 g (mapEmail g.raw).attachments.length
      ++ attempt A 0 f (xs.length + 1)) _
    (List.forall_mem_append.mpr
      ⟨attempt_of.allowed (Or.inr rfl) ((inbox_other hne).symm ▸ hg),
        attempt_of.allowed (Or.inl rfl) (inbox_self.symm ▸ hf)⟩)
    ((Lts.run_append (hB.trans (congrArg some hsB.symm))).trans hA)
  rw [List.filter_append, attempt_of.left hne, attempt_of.kept] at ht
  obtain rfl := Option.some.inj (halone.symm.trans ht)
  have htask := hsame.tasks 0
  rw [after_self, after_self] at htask
  cases htask

/-- A message of B's under the id of one of A's. -/
theorem shared_id_interferes (hown : A.ownerUserId ≠ B.ownerUserId)
    (hf : f ∈ P) (hg : g ∈ Q) (hsf : f.Storable) (hsg : g.Storable)
    (hn : ∀ x ∈ f.blobs, ∀ y ∈ g.blobs, ¬ Nested x.1 y.1)
    (hid : f.raw.providerMessageId = g.raw.providerMessageId) :
    ¬ Isolated A B P Q := by
  intro hiso
  have hne := ne_of_owners hown
  -- B's item is there first
  have hB := run_whole B (s := .init) (w := 0) rfl
    (hsg.clear (List.Subset.refl _) fun b hb => absurd hb List.not_mem_nil)
    rfl
  obtain ⟨sB, hsB⟩ : ∃ sB, sB = ({ MailState.init with
      items := [g.item B g.draw] }.after B 0 g.blobs
        (.returned (g.item B g.draw) true)) := ⟨_, rfl⟩
  have hfind : (sB.items.find? fun r => r.source = "email"
      ∧ r.externalId = f.raw.providerMessageId)
      = some (g.item B g.draw) := by
    rw [hsB]
    exact List.find?_cons_of_pos (decide_eq_true ⟨rfl, hid.symm⟩)
  have hblobs : sB.blobs = writes B g.blobs := by
    rw [hsB]
    exact List.append_nil _
  have hclear : Clear sB.blobs f.blobs := by
    refine clear_of hsf (List.Subset.refl _) (fun b hb => ?_)
      fun y hy x hx hnest => hn x hx y hy hnest.symm
    rw [hblobs] at hb
    exact mem_writes hb
  have hidle : sB.tasks A 0 = .idle :=
    hsB ▸ after_other fun h => hne h.1.symm
  have hA : Lts.run MailState.step sB (whole A 0 f f.draw) = some _ :=
    run_found hidle hclear hfind
  -- without it, A inserts its own
  have halone := run_whole A (s := .init) (w := 0) rfl
    (hsf.clear (List.Subset.refl _) fun b hb => absurd hb List.not_mem_nil)
    rfl
  obtain ⟨t, ht, hsame⟩ := hiso
    (whole B 0 g g.draw ++ whole A 0 f f.draw) _
    (List.forall_mem_append.mpr
      ⟨whole_of.allowed (Or.inr rfl) ((inbox_other hne).symm ▸ hg),
        whole_of.allowed (Or.inl rfl) (inbox_self.symm ▸ hf)⟩)
    ((Lts.run_append (hB.trans (congrArg some hsB.symm))).trans hA)
  rw [List.filter_append, whole_of.left hne, whole_of.kept] at ht
  obtain rfl := Option.some.inj (halone.symm.trans ht)
  have htask := hsame.tasks 0
  rw [after_self, after_self] at htask
  injection htask with hrow hcreated
  cases hcreated

/-- The latest write counts. -/
theorem at_writes (bs : List (Path × Bytes)) (x : Path × Bytes)
    (blobs : BlobStore) :
    BlobStore.at (writes mb (bs ++ [x]) ++ blobs) x.1 = some x.2 := by
  rw [writes_append]
  unfold BlobStore.at
  exact congrArg (Option.map BlobWrite.data)
    (List.find?_cons_of_pos (decide_eq_true rfl))

/-- A blob of a message hangs on its item. -/
theorem item_refs (mb : Mailbox) {x : Path × Bytes} (hx : x ∈ f.blobs) :
    ∃ att ∈ (f.item mb f.draw).attachments, ∃ ref,
      att.rawUri = some ref ∧ resolve ref = x.1 := by
  obtain ⟨spec, hspec, h⟩ := List.mem_filterMap.mp hx
  obtain ⟨⟨ref, data⟩, hblob, rfl⟩ := Option.map_eq_some_iff.mp h
  have hround : roundOf (mapEmail f.raw) f.attachmentsBytes spec
      = spec.stored ref data := by
    unfold roundOf
    rw [hblob]
  have hmem := List.mem_map_of_mem
    (f := roundOf (mapEmail f.raw) f.attachmentsBytes) hspec
  have hlen : ((mapEmail f.raw).attachments.map
      (roundOf (mapEmail f.raw) f.attachmentsBytes)).length
      ≤ f.draw.attachmentIds.length := by
    rw [List.length_map]
    exact List.length_range.ge
  rw [← List.map_snd_zip hlen] at hmem
  obtain ⟨⟨id, spec'⟩, hzip, hspec'⟩ := List.mem_map.mp hmem
  refine ⟨_, List.mem_map_of_mem hzip, ref, ?_, rfl⟩
  have hsame : spec' = spec.stored ref data := hspec'.trans hround
  show spec'.rawUri = some ref
  rw [hsame]
  rfl

/-- Equal views read equal bytes. -/
theorem view_get {s t : MailState} {owner ref : String}
    {row : IngestionItem} {att : IngestionAttachment}
    (hitems : s.items = t.items) (hview : s.view owner = t.view owner)
    (hrow : row ∈ t.items) (howner : row.ownerUserId = owner)
    (hatt : att ∈ row.attachments) (href : att.rawUri = some ref) :
    s.blobs.get ref = t.blobs.get ref := by
  unfold MailState.view at hview
  rw [hitems] at hview
  have hbytes := congrArg Prod.snd (List.map_inj_left.mp hview row
    (List.mem_filter.mpr ⟨hrow, decide_eq_true howner⟩))
  have hget := List.map_inj_left.mp hbytes att hatt
  rw [href] at hget
  exact hget

/-- Other bytes of B's where A has written. -/
theorem shared_path_interferes (hown : A.ownerUserId ≠ B.ownerUserId)
    (hf : f ∈ P) (hg : g ∈ Q) (hsf : f.Storable) (hsg : g.Storable)
    (hn : ∀ x ∈ f.blobs, ∀ y ∈ g.blobs, ¬ Nested x.1 y.1)
    {x y : Path × Bytes} (hx : x ∈ f.blobs) (hy : y ∈ g.blobs)
    (hpath : x.1 = y.1) (hdata : x.2 ≠ y.2) : ¬ Isolated A B P Q := by
  intro hiso
  have hne := ne_of_owners hown
  obtain ⟨xs, spec, ys, hspecs, hblobx⟩ := split_at_blob hx
  obtain ⟨xs', spec', ys', hspecs', hbloby⟩ := split_at_blob hy
  rw [List.append_cons] at hspecs hspecs'
  have hsub : xs ++ [spec] ⊆ (mapEmail f.raw).attachments := by
    rw [hspecs]
    exact List.subset_append_left _ _
  have hsub' : xs' ++ [spec'] ⊆ (mapEmail g.raw).attachments := by
    rw [hspecs']
    exact List.subset_append_left _ _
  have hlast : f.blobsOf (xs ++ [spec]) = f.blobsOf xs ++ [x] :=
    (List.filterMap_append ..).trans (congrArg _ hblobx)
  have hlast' : g.blobsOf (xs' ++ [spec']) = g.blobsOf xs' ++ [y] :=
    (List.filterMap_append ..).trans (congrArg _ hbloby)
  -- A's item is there, and its message comes again up to `x`
  have hA := run_whole A (s := .init) (w := 0) rfl
    (hsf.clear (List.Subset.refl _) fun b hb => absurd hb List.not_mem_nil)
    rfl
  obtain ⟨s₁, hs₁⟩ : ∃ s₁, s₁ = ({ MailState.init with
      items := [f.item A f.draw] }.after A 0 f.blobs
        (.returned (f.item A f.draw) true)) := ⟨_, rfl⟩
  have hblobs₁ : s₁.blobs = writes A f.blobs := by
    rw [hs₁]
    exact List.append_nil _
  have hidle₁ : s₁.tasks A 1 = .idle :=
    hs₁ ▸ after_other fun h => by cases h.2
  have hagain := run_attempt _ hidle₁ hspecs
    (hsf.clear (blobsOf_subset hsub) fun b hb =>
      mem_writes (hblobs₁ ▸ hb))
  obtain ⟨t, ht⟩ : ∃ t, t = s₁.after A 1 (f.blobsOf (xs ++ [spec]))
    (f.loop (xs ++ [spec]) ys) := ⟨_, rfl⟩
  have hitems : t.items = [f.item A f.draw] := by
    rw [ht, hs₁]
    rfl
  have hblobs : t.blobs
      = writes A (f.blobsOf (xs ++ [spec])) ++ writes A f.blobs := by
    rw [ht, ← hblobs₁]
    rfl
  -- B writes `y`
  have hidle : t.tasks B 0 = .idle := by
    rw [ht, after_other fun h => hne h.1, hs₁,
      after_other fun h => hne h.1]
    rfl
  have hclear : Clear t.blobs (g.blobsOf (xs' ++ [spec'])) := by
    refine clear_of hsg (blobsOf_subset hsub') (fun b hb => ?_) hn
    rw [hblobs] at hb
    rcases List.mem_append.mp hb with hb | hb
    · obtain ⟨x', hx', heq⟩ := mem_writes hb
      exact ⟨x', blobsOf_subset hsub hx', heq⟩
    · exact mem_writes hb
  have hB := run_attempt _ hidle hspecs' hclear
  have hfirst := (Lts.run_append (hA.trans (congrArg some hs₁.symm))).trans
    (hagain.trans (congrArg some ht.symm))
  obtain ⟨t', ht', hsame⟩ := hiso
    ((whole A 0 f f.draw ++ attempt A 1 f (xs ++ [spec]).length)
      ++ attempt B 0 g (xs' ++ [spec']).length) _
    (List.forall_mem_append.mpr
      ⟨(whole_of.append attempt_of).allowed (Or.inl rfl)
        (inbox_self.symm ▸ hf),
        attempt_of.allowed (Or.inr rfl) ((inbox_other hne).symm ▸ hg)⟩)
    ((Lts.run_append hfirst).trans hB)
  rw [List.filter_append, (whole_of.append attempt_of).kept,
    attempt_of.left hne, List.append_nil] at ht'
  obtain rfl := Option.some.inj (hfirst.symm.trans ht')
  obtain ⟨att, hatt, ref, href, hat⟩ := item_refs A hx
  have hrow : f.item A f.draw ∈ t.items := by
    rw [hitems]
    exact List.mem_singleton_self _
  have hget := view_get (s := t.after B 0 (g.blobsOf (xs' ++ [spec']))
    (g.loop (xs' ++ [spec']) ys')) (t := t) rfl hsame.view hrow rfl hatt
    href
  have hx' : t.blobs.get ref = some x.2 := by
    unfold BlobStore.get
    rw [hat, hblobs, hlast]
    exact at_writes _ _ _
  have hy' : (t.after B 0 (g.blobsOf (xs' ++ [spec']))
      (g.loop (xs' ++ [spec']) ys')).blobs.get ref = some y.2 := by
    unfold BlobStore.get
    rw [hat, hpath, after_blobs, hlast']
    exact at_writes _ _ _
  rw [hx', hy'] at hget
  injection hget with hget
  exact hdata hget.symm

/-- Messages of isolated mailboxes are apart, as far as each can be
stored. -/
theorem apart_of_isolated (hown : A.ownerUserId ≠ B.ownerUserId)
    (hiso : Isolated A B P Q) (hf : f ∈ P) (hg : g ∈ Q)
    (hsf : f.Storable) (hsg : g.Storable) : Apart f g := by
  have hn : ∀ x ∈ f.blobs, ∀ y ∈ g.blobs, ¬ Nested x.1 y.1 := by
    intro x hx y hy hxy
    exact nested_interferes hown hf hg hsf hsg ⟨x, hx, y, hy, hxy⟩ hiso
  refine { id := fun hid => ?_, nested := hn, same := ?_ }
  · exact shared_id_interferes hown hf hg hsf hsg hn hid hiso
  · intro x hx y hy hpath
    by_contra hdata
    exact shared_path_interferes hown hf hg hsf hsg hn hx hy hpath hdata
      hiso

end Schedules

-- ================================================================= theorem

/-- Two mailboxes of different owners do not interfere when any two of
their messages are apart; and two messages that are not apart interfere,
if each can be stored by itself. -/
theorem mailboxes_isolated {A B : Mailbox} {P Q : Set Fetched}
    (hown : A.ownerUserId ≠ B.ownerUserId) :
    ((∀ f ∈ P, ∀ g ∈ Q, Apart f g) → Isolated A B P Q)
      ∧ (Isolated A B P Q → ∀ f ∈ P, ∀ g ∈ Q,
        f.Storable → g.Storable → Apart f g) :=
  ⟨isolated_of_apart hown, fun hiso _ hf _ hg hsf hsg =>
    apart_of_isolated hown hiso hf hg hsf hsg⟩

/-- A message with one attachment, as the provider returns it. -/
def sampleMessage (id name : String) (data : Bytes) : Fetched :=
  { raw :=
      { providerMessageId := id, providerThreadId := none
        subject := some "Demanda", bodyText := some "Adjunto.", bodyHtml := none
        fromAddr := some "x@example.com", toAddrs := [], ccAddrs := []
        bccAddrs := [], inReplyTo := none, references := []
        headers := .obj [], receivedAt := none
        attachments := [{ partId := "1", name := name
                          mimeType := "application/pdf", size := none
                          data := some data }]
        raw := .obj [] }
    download := fun _ => none }

def annMailbox : Mailbox := { id := 1, ownerUserId := "ann" }

def bobMailbox : Mailbox := { id := 2, ownerUserId := "bob" }

theorem sampleBlobs_m1 : (sampleMessage "m1" "a.pdf" [1]).blobs
    = [(["ingestion".toList, "email".toList, "m1".toList,
      "a.pdf".toList], [1])] := by
  decide +kernel

/-- Messages with ids of their own do not interfere. -/
theorem distinct_ids_isolated :
    Isolated annMailbox bobMailbox {sampleMessage "m1" "a.pdf" [1]}
      {sampleMessage "m2" "a.pdf" [2]} := by
  refine (mailboxes_isolated (by decide)).1 ?_
  rintro f rfl g rfl
  have hg : (sampleMessage "m2" "a.pdf" [2]).blobs
      = [(["ingestion".toList, "email".toList, "m2".toList,
        "a.pdf".toList], [2])] := by
    decide +kernel
  refine { id := by decide, nested := ?_, same := ?_ }
  · rw [sampleBlobs_m1, hg]
    decide
  · rw [sampleBlobs_m1, hg]
    decide

/-- Both providers use the id `m1`: Ann's message is suppressed, and her
task returns Bob's item. -/
theorem shared_id_suppresses :
    ¬ Isolated annMailbox bobMailbox {sampleMessage "m1" "a.pdf" [1]}
      {sampleMessage "m1" "b.pdf" [2]} := by
  have hg : (sampleMessage "m1" "b.pdf" [2]).blobs
      = [(["ingestion".toList, "email".toList, "m1".toList,
        "b.pdf".toList], [2])] := by
    decide +kernel
  refine shared_id_interferes (by decide) rfl rfl ?_ ?_ ?_ rfl
  · unfold Fetched.Storable
    rw [sampleBlobs_m1]
    decide
  · unfold Fetched.Storable
    rw [hg]
    decide
  · rw [sampleBlobs_m1, hg]
    decide

end LegalBot.Mail
