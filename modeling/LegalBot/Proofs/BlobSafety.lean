/-
What later puts leave of a committed blob.

# Below the root

No part of a resolved key is `..` and it is never absolute, so it leads
from the root only down.

# Committed blobs

A row kept as a blob has its payload under its reference from
`storePayload` on (`Sound`), for the blobs the transactions see. These
are the files under the references that were put (`Filed`): a put of an
artifact has a reference of its own ids, which no other file has
(`resolve_blobRefOf_injective`), and a put of an ingestion is under
`ingestion` (`resolve_blobRef`). So no later put is to the path of a
reference (`Kept`).
-/
import LegalBot.Proofs.LastingRows
import LegalBot.Proofs.MailboxIsolation

namespace LegalBot

open Mail (BlobStore BlobWrite MailAction MailState)
open VersionChain (Carries Draft Versioned demoteIn)

-- ============================================================== statements

/-- The file of a row has the bytes its checksum is of. -/
def Backed (rt : Runtime) (blobs : Blobs) (row : Artifact) : Prop :=
  row.storage = .blob → ∃ ref data, row.blobRef = some ref
    ∧ blobs ref = some data ∧ rt.sha256 data = row.checksum

/-- Every row and every write in progress has its blob. -/
structure Sound {n : Nat} (rt : Runtime) (s : ArtifactState n) : Prop where
  committed : ∀ r ∈ s.committed, Backed rt s.blobs r
  drafted : ∀ t, ∀ r ∈ (s.txs t).draft.inserted, Backed rt s.blobs r
  points : ∀ t w, (s.txs t).point.pending = some w →
    Placed s.blobs w.args w.id w.payload

-- ============================================================ transactions

section Transactions

variable {n : Nat} {rt : Runtime} {svc : ArtifactService}
  {s s' : ArtifactState n} {t : Fin n} {blobs blobs' : Blobs}
  {row : Artifact} {w : PendingWrite}

theorem Backed.grow (hgrow : BlobsGrow blobs blobs')
    (h : Backed rt blobs row) : Backed rt blobs' row := by
  intro hblob
  obtain ⟨ref, data, href, hdata, hsum⟩ := h hblob
  exact ⟨ref, data, href, hgrow ref data hdata, hsum⟩

theorem Backed.demoteIn {ids : List Uuid} (h : Backed rt blobs row) :
    Backed rt blobs (demoteIn ids row) := by
  unfold VersionChain.demoteIn
  split <;> exact h

/-- The row of a write is backed by its payload. -/
theorem backed_newArtifact {prior : Option Uuid}
    (h : Placed blobs w.args w.id w.payload) :
    Backed rt blobs (w.row rt prior) := by
  intro hblob
  have hpayload : w.payload.storage = .blob := hblob
  refine ⟨_, w.payload.data, ?_, h hpayload, rfl⟩
  simp only [PendingWrite.row, newArtifact, hpayload]

/-- No step loses a committed row. -/
theorem step_carries {a : ArtifactAction n}
    (hstep : ArtifactState.step rt svc a s = some s') :
    Carries s.committed s'.committed := by
  cases a with
  | commit t =>
      simp only [ArtifactState.step] at hstep
      split at hstep
      · injection hstep with hstep
        subst hstep
        exact Draft.carries_on
      · cases hstep
  | statement t id =>
      obtain ⟨outcome, -, rfl⟩ := Option.map_eq_some_iff.mp hstep
      cases outcome <;> exact Carries.refl
  | call t c =>
      simp only [ArtifactState.step] at hstep
      split at hstep
      · injection hstep with hstep
        subst hstep
        exact Carries.refl
      · cases hstep
  | rollback t =>
      injection hstep with hstep
      subst hstep
      exact Carries.refl

theorem backed_lasts : Lasting rt svc (Backed rt) where
  grow := Backed.grow
  demote := Backed.demoteIn
  written := fun _ => backed_newArtifact

/-- The rows of every state reached have their blobs. -/
theorem reaches_sound {G : ArtifactAction n → ArtifactState n → Prop}
    (h : ArtifactReaches rt svc G s) : Sound rt s := by
  obtain ⟨hcommitted, hdrafted, hpoints⟩ :=
    reaches_rows_have backed_lasts h
  exact ⟨hcommitted, hdrafted, fun t w hw => (hpoints t w hw).2⟩

end Transactions

-- ==================================================================== files

/-- What the transactions see is what is there, under references of
artifacts. -/
structure Filed {n : Nat} (s : StoreState n) : Prop where
  view : s.artifacts.blobs = s.seen
  refs : ∀ ref ∈ s.refs, (∃ sid id, ref = blobRefOf sid id)
    ∧ (s.mail.blobs.get ref).isSome

/-- The puts and commits between two states leave the files of the
references and the rows. -/
structure Kept {n : Nat} (s s' : StoreState n) : Prop where
  files : ∃ puts, s'.mail.blobs = puts ++ s.mail.blobs
    ∧ ∀ b ∈ puts, ∀ ref ∈ s.refs, b.path ≠ Mail.resolve ref
  refs : s.refs ⊆ s'.refs
  rows : Carries s.artifacts.committed s'.artifacts.committed

section Files

variable {n : Nat} {rt : Runtime} {svc : ArtifactService}
  {s s' s'' : StoreState n} {blobs puts : BlobStore} {ref : String}
  {data : List UInt8}

theorem get_append (h : ∀ b ∈ puts, b.path ≠ Mail.resolve ref) :
    BlobStore.get (puts ++ blobs) ref = blobs.get ref := by
  have hnone : puts.find? (fun b => b.path = Mail.resolve ref) = none :=
    List.find?_eq_none.mpr fun b hb => by simpa using h b hb
  unfold BlobStore.get BlobStore.at
  rw [List.find?_append, hnone, Option.none_or]

theorem Kept.refl : Kept s s :=
  ⟨⟨[], rfl, (fun _ h => by cases h)⟩, List.Subset.refl _, Carries.refl⟩

theorem Kept.trans (h : Kept s s') (h' : Kept s' s'') : Kept s s'' := by
  obtain ⟨puts, hblobs, hpaths⟩ := h.files
  obtain ⟨puts', hblobs', hpaths'⟩ := h'.files
  refine ⟨⟨puts' ++ puts, ?_, fun b hb ref href => ?_⟩,
    List.Subset.trans h.refs h'.refs, h.rows.trans h'.rows⟩
  · rw [hblobs', hblobs, List.append_assoc]
  · rcases List.mem_append.mp hb with hb | hb
    · exact hpaths' b hb ref (h.refs href)
    · exact hpaths b hb ref href

/-- A put elsewhere keeps what is there. -/
theorem Kept.of_put {b : BlobWrite} {refs : List String}
    {artifacts : ArtifactState n} {mail : MailState}
    (hblobs : mail.blobs = b :: s.mail.blobs)
    (hpath : ∀ ref ∈ s.refs, b.path ≠ Mail.resolve ref)
    (hrefs : s.refs ⊆ refs)
    (hrows : Carries s.artifacts.committed artifacts.committed) :
    Kept s ⟨artifacts, mail, refs⟩ := by
  refine ⟨⟨[b], hblobs, fun b' hb' => ?_⟩, hrefs, hrows⟩
  rw [List.mem_singleton.mp hb']
  exact hpath

/-- What ingestion puts. -/
theorem mail_step_blobs {a : MailAction} {m m' : MailState}
    (h : MailState.step a m = some m') :
    m'.blobs = m.blobs ∨ ∃ mapped name writer data, m'.blobs
      = ⟨writer, Mail.resolve (Mail.blobRef mapped name), data⟩
        :: m.blobs := by
  unfold MailState.step at h
  split at h
  · -- deliver
    split at h
    · cases h
    · injection h with h
      exact Or.inl (h ▸ rfl)
  · -- blob
    unfold MailState.blob at h
    split at h
    · rename_i mapped d through spec rest hpoint
      split at h
      · injection h with h
        exact Or.inl (h ▸ rfl)
      · rename_i ref data hblob
        have href : ref = Mail.blobRef mapped spec.name := by
          unfold Mail.specBlob at hblob
          split at hblob
          · split at hblob
            · injection hblob with hblob
              exact (congrArg Prod.fst hblob).symm
            · cases hblob
          · cases hblob
        split at h
        · injection h with h
          exact Or.inl (h ▸ rfl)
        · rename_i blobs hput
          injection h with h
          subst h href
          exact Or.inr ⟨_, _, _, _, Mail.put_some hput⟩
    · cases h
  · -- commit
    unfold MailState.commit at h
    split at h
    · split at h
      · injection h with h
        exact Or.inl (h ▸ rfl)
      · simp only at h
        split at h
        · injection h with h
          exact Or.inl (h ▸ rfl)
        · cases h
    · cases h
  · -- crash
    injection h with h
    exact Or.inl (h ▸ rfl)

/-- An action that puts nothing leaves the blobs. -/
theorem step_no_put {a : ArtifactAction n} {x x' : ArtifactState n}
    (h : ArtifactState.step rt svc a x = some x')
    (hput : x.puts rt svc a = none) : x'.blobs = x.blobs := by
  cases a with
  | call t c =>
      simp only [ArtifactState.step] at h
      split at h
      · injection h with h
        rw [← h]
        rfl
      · cases h
  | statement t id =>
      obtain ⟨outcome, hs, rfl⟩ := Option.map_eq_some_iff.mp h
      exact statement_no_put hs (Option.map_eq_none_iff.mp hput)
  | commit t =>
      simp only [ArtifactState.step] at h
      split at h
      · injection h with h
        rw [← h]
        rfl
      · cases h
  | rollback t =>
      injection h with h
      rw [← h]
      rfl

/-- A put of an artifact has a fresh reference. -/
theorem step_put {a : ArtifactAction n} {x x' : ArtifactState n}
    {t : Fin n} (h : ArtifactState.step rt svc a x = some x')
    (hput : x.puts rt svc a = some (t, ref, data)) :
    x.blobs ref = none
      ∧ x'.blobs = Function.update x.blobs ref (some data)
      ∧ ∃ sid id, ref = blobRefOf sid id := by
  cases a with
  | statement t' id =>
      obtain ⟨outcome, hs, rfl⟩ := Option.map_eq_some_iff.mp h
      obtain ⟨put, hpoint, heq⟩ := Option.map_eq_some_iff.mp hput
      injection heq with _ heq
      subst heq
      exact statement_put hs hpoint
  | _ => cases hput

theorem Kept.get (h : Kept s s') (href : ref ∈ s.refs) :
    s'.mail.blobs.get ref = s.mail.blobs.get ref := by
  obtain ⟨puts, hblobs, hpaths⟩ := h.files
  rw [hblobs]
  exact get_append fun b hb => hpaths b hb ref href

theorem Kept.seen (h : Kept s s') (hrefs : s'.refs = s.refs) :
    s'.seen = s.seen := by
  funext ref
  unfold StoreState.seen
  rw [hrefs]
  split
  · rename_i href
    exact h.get href
  · rfl

/-- Without a new reference only the view has to be kept. -/
theorem Filed.of_kept (h : Filed s) (hkept : Kept s s')
    (hrefs : s'.refs = s.refs) (hview : s'.artifacts.blobs = s.seen) :
    Filed s' := by
  refine ⟨hview.trans (hkept.seen hrefs).symm, fun ref href => ?_⟩
  rw [hrefs] at href
  rw [hkept.get href]
  exact h.refs ref href

theorem Filed.onFiles (h : Filed s) : s.onFiles = s.artifacts := by
  unfold StoreState.onFiles
  rw [← h.view]

theorem get_put {b : BlobWrite} (h : b.path = Mail.resolve ref) :
    BlobStore.get (b :: blobs) ref = some b.data := by
  unfold BlobStore.get BlobStore.at
  rw [List.find?_cons_of_pos (by simpa using h)]
  rfl

/-- A fresh reference has a path of its own. -/
theorem Filed.fresh_path (h : Filed s) (hfresh : s.seen ref = none)
    (hform : ∃ sid id, ref = blobRefOf sid id) {ref' : String}
    (href' : ref' ∈ s.refs) : Mail.resolve ref ≠ Mail.resolve ref' := by
  intro hpath
  obtain ⟨⟨sid', id', hform'⟩, hsome⟩ := h.refs ref' href'
  obtain ⟨sid, id, rfl⟩ := hform
  subst hform'
  obtain ⟨rfl, rfl⟩ := resolve_blobRefOf_injective hpath
  unfold StoreState.seen at hfresh
  rw [if_pos href'] at hfresh
  rw [hfresh] at hsome
  cases hsome

/-- The put of an artifact write. -/
theorem Filed.put {b : BlobWrite} {x : ArtifactState n} (h : Filed s)
    (hpath : b.path = Mail.resolve ref) (hfresh : s.seen ref = none)
    (hform : ∃ sid id, ref = blobRefOf sid id)
    (hblobs : x.blobs = Function.update s.seen ref (some b.data))
    (hrows : Carries s.artifacts.committed x.committed) :
    let s' : StoreState n :=
      { artifacts := x
        mail := { s.mail with blobs := b :: s.mail.blobs }
        refs := ref :: s.refs }
    Filed s' ∧ Kept s s' := by
  intro s'
  have hkept : Kept s s' := by
    refine .of_put rfl (fun ref' href' => ?_) (List.subset_cons_self _ _)
      hrows
    rw [hpath]
    exact h.fresh_path hfresh hform href'
  refine ⟨⟨?_, fun ref' href' => ?_⟩, hkept⟩
  · show x.blobs = s'.seen
    rw [hblobs]
    funext ref'
    by_cases heq : ref' = ref
    · subst heq
      rw [Function.update_self]
      exact ((if_pos List.mem_cons_self).trans (get_put hpath)).symm
    · rw [Function.update_of_ne heq]
      unfold StoreState.seen
      by_cases href : ref' ∈ s.refs
      · rw [if_pos href, if_pos (List.mem_cons_of_mem _ href),
          hkept.get href]
      · rw [if_neg href, if_neg (by simp [s', heq, href])]
  · rcases List.mem_cons.mp href' with rfl | href'
    · refine ⟨hform, ?_⟩
      rw [show s'.mail.blobs.get ref' = some b.data from get_put hpath]
      rfl
    · rw [hkept.get href']
      exact h.refs ref' href'

/-- What a step does to the files, to the references and to the
transactions. -/
theorem Filed.step {a : StoreAction n} (h : Filed s)
    (hstep : StoreState.step rt svc a s = some s') :
    Filed s' ∧ Kept s s'
      ∧ (s'.artifacts = s.artifacts ∨ ∃ b,
        ArtifactState.step rt svc b s.artifacts = some s'.artifacts) := by
  cases a with
  | mail a =>
      obtain ⟨mail, hmail, rfl⟩ := Option.map_eq_some_iff.mp hstep
      have hkept : Kept s { s with mail := mail } := by
        rcases mail_step_blobs hmail with hsame | ⟨mapped, name, _, _, hblobs⟩
        · exact ⟨⟨[], hsame, fun _ h => by cases h⟩, List.Subset.refl _,
            Carries.refl⟩
        · refine .of_put hblobs (fun ref href => ?_) (List.Subset.refl _)
            Carries.refl
          obtain ⟨⟨sid, id, rfl⟩, -⟩ := h.refs ref href
          dsimp only
          exact resolve_blobRef_ne mapped name
      exact ⟨h.of_kept hkept rfl h.view, hkept, Or.inl rfl⟩
  | artifact a =>
      obtain ⟨x, hx, hs'⟩ := Option.map_eq_some_iff.mp hstep
      rw [h.onFiles] at hx hs'
      cases hput : s.artifacts.puts rt svc a with
      | none =>
          rw [hput] at hs'
          subst hs'
          have hkept : Kept s { s with artifacts := x } :=
            ⟨⟨[], rfl, fun _ h => by cases h⟩, List.Subset.refl _,
              step_carries hx⟩
          exact ⟨h.of_kept hkept rfl ((step_no_put hx hput).trans h.view),
            hkept, Or.inr ⟨a, hx⟩⟩
      | some put =>
          obtain ⟨t, ref, data⟩ := put
          rw [hput] at hs'
          simp only at hs'
          split at hs'
          · -- the put raises
            subst hs'
            have hkept : Kept s
                { s with artifacts := s.artifacts.rollback t } :=
              ⟨⟨[], rfl, fun _ h => by cases h⟩, List.Subset.refl _,
                Carries.refl⟩
            exact ⟨h.of_kept hkept rfl h.view, hkept,
              Or.inr ⟨.rollback t, rfl⟩⟩
          · rename_i blobs hblobs
            obtain rfl := Mail.put_some hblobs
            subst hs'
            obtain ⟨hfresh, hupdate, hform⟩ := step_put hx hput
            rw [h.view] at hfresh hupdate
            obtain ⟨hfiled, hkept⟩ := h.put (b := ⟨_, _, data⟩) rfl hfresh
              hform hupdate (step_carries hx)
            exact ⟨hfiled, hkept, Or.inr ⟨a, hx⟩⟩

end Files

-- ==================================================================== runs

section Runs

variable {n : Nat} {rt : Runtime} {svc : ArtifactService}
  {s s' : StoreState n}

theorem filed_init : Filed (StoreState.init n) :=
  ⟨rfl, fun _ h => by cases h⟩

/-- The transactions of a reached state are reached by themselves. -/
theorem store_reaches (h : StoreReaches rt svc s) :
    Filed s ∧ ArtifactReaches rt svc Lts.Always s.artifacts := by
  refine Lts.Reachable.invariant (P := fun s => Filed s
    ∧ ArtifactReaches rt svc Lts.Always s.artifacts) ?_ ?_ h
  · exact ⟨filed_init, .init⟩
  · intro s a s' _ hs _ hstep
    obtain ⟨hfiled, -, hartifacts⟩ := hs.1.step hstep
    refine ⟨hfiled, ?_⟩
    rcases hartifacts with hsame | ⟨b, hb⟩
    · rw [hsame]
      exact hs.2
    · exact .step b hs.2 trivial hb

/-- A whole run leaves the files of the references. -/
theorem later_kept (h : Filed s)
    (hlater : Lts.Reachable (StoreState.step rt svc) Lts.Always s s') :
    Kept s s' := by
  have hboth : Filed s' ∧ Kept s s' := by
    refine Lts.Reachable.invariant
      (P := fun s' => Filed s' ∧ Kept s s') ⟨h, .refl⟩ ?_ hlater
    intro s₁ a s₂ _ hs _ hstep
    obtain ⟨hfiled, hkept, -⟩ := hs.1.step hstep
    exact ⟨hfiled, hs.2.trans hkept⟩
  exact hboth.2

/-- A row of a reached state and the file of its reference. -/
theorem committed_backed (h : StoreReaches rt svc s) {row : Artifact}
    (hrow : row ∈ s.artifacts.committed) (hblob : row.storage = .blob) :
    ∃ ref data, row.blobRef = some ref ∧ ref ∈ s.refs
      ∧ s.mail.blobs.get ref = some data
      ∧ rt.sha256 data = row.checksum := by
  obtain ⟨hfiled, hreaches⟩ := store_reaches h
  obtain ⟨ref, data, href, hdata, hsum⟩ :=
    (reaches_sound hreaches).committed row hrow hblob
  rw [hfiled.view] at hdata
  unfold StoreState.seen at hdata
  split at hdata
  · rename_i hmem
    exact ⟨ref, data, href, hmem, hdata, hsum⟩
  · cases hdata

/-- Every key resolves to a path below the root; and from every reached
state on, no put is to the file of a committed row, which keeps the
bytes of its checksum. -/
theorem blob_store_safe (h : StoreReaches rt svc s) :
    (∀ root key, joinRoot root (cleanKey key) = root ++ Mail.resolve key
      ∧ (cleanKey key).head? ≠ some '/'
      ∧ ['.', '.'] ∉ Mail.resolve key
      ∧ walk root (Mail.resolve key) = root ++ Mail.resolve key)
    ∧ ∀ row ∈ s.artifacts.committed, row.storage = .blob →
      ∃ ref data, row.blobRef = some ref ∧ rt.sha256 data = row.checksum
        ∧ ∀ s', Lts.Reachable (StoreState.step rt svc) Lts.Always s s' →
          (∃ puts, s'.mail.blobs = puts ++ s.mail.blobs
            ∧ ∀ b ∈ puts, b.path ≠ Mail.resolve ref)
          ∧ s'.mail.blobs.get ref = some data
          ∧ (∃ row' ∈ s'.artifacts.committed,
            Versioned.demote row' = Versioned.demote row)
          ∧ (row.mime ≠ "application/json" →
            resolvePayload rt s'.mail.blobs.get row = .ok (.bytes data)) := by
  refine ⟨fun root key => ⟨joinRoot_cleanKey root key, cleanKey_head key,
    dots_notMem_resolve key, walk_down (dots_notMem_resolve key) root⟩,
    fun row hrow hblob => ?_⟩
  obtain ⟨ref, data, href, hmem, hdata, hsum⟩ :=
    committed_backed h hrow hblob
  refine ⟨ref, data, href, hsum, fun s' hlater => ?_⟩
  have hkept := later_kept (store_reaches h).1 hlater
  have hlaterData := (hkept.get hmem).trans hdata
  obtain ⟨puts, hblobs, hpaths⟩ := hkept.files
  refine ⟨⟨puts, hblobs, fun b hb => hpaths b hb ref hmem⟩, hlaterData,
    hkept.rows row hrow, fun hmime => ?_⟩
  unfold resolvePayload
  simp only [hblob, href, hlaterData, if_neg hmime]

end Runs

-- =============================================================== scenarios

/-- A message whose id and attachment name spell the reference of
artifact 1 of session 10. -/
def forgedMessage : Mail.Fetched :=
  { raw :=
      { providerMessageId := "../../sessions/10/artifacts"
        providerThreadId := none, subject := none, bodyText := none
        bodyHtml := none, fromAddr := none, toAddrs := [], ccAddrs := []
        bccAddrs := [], inReplyTo := none, references := []
        headers := .null, receivedAt := none
        attachments := [⟨"1", "/../1", "text/plain", none, some [0]⟩]
        raw := .null }
    download := fun _ => none }

/-- `write("hello")` as text. -/
def helloWrite : WriteArgs :=
  { sessionId := 10, key := "extracted_text/a.txt"
    content := .value (.str "hello"), kind := "text", producer := "system"
    runId := none, mime := "text/plain", metadata := none
    createdBy := none }

/-- A committed write. -/
def helloCommitted : List (StoreAction 1) :=
  [.artifact (.call 0 (.write helloWrite)), .artifact (.statement 0 0),
    .artifact (.statement 0 1), .artifact (.statement 0 0),
    .artifact (.statement 0 0), .artifact (.commit 0)]

/-- The message, and a write that is rolled back. -/
def forgedDelivery : List (StoreAction 1) :=
  [.mail ⟨⟨7, "ada"⟩, 0, .deliver forgedMessage⟩,
    .mail ⟨⟨7, "ada"⟩, 0, .blob⟩,
    .artifact (.call 0 (.write helloWrite)), .artifact (.statement 0 0),
    .artifact (.statement 0 2), .artifact (.rollback 0)]

/-- The three blobs, and the text is still there. -/
theorem forged_message_harmless :
    ∃ s s' : StoreState 1,
      Lts.run (StoreState.step Runtime.sample ArtifactService.default)
        (StoreState.init 1) helloCommitted = some s
      ∧ Lts.run (StoreState.step Runtime.sample ArtifactService.default)
        s forgedDelivery = some s'
      ∧ s'.mail.blobs.map (fun b => b.path.map String.ofList)
        = [["sessions", "10", "artifacts", "2"],
          ["ingestion", "email", "_", "_", "sessions", "10", "artifacts",
            "_", "1"],
          ["sessions", "10", "artifacts", "1"]]
      ∧ ∃ row ∈ s.artifacts.committed, ∃ data,
        s'.mail.blobs.get "sessions/10/artifacts/1" = some data
        ∧ Runtime.sample.sha256 data = row.checksum := by
  have hrun : ((Lts.run (StoreState.step Runtime.sample
      ArtifactService.default) (StoreState.init 1) helloCommitted).bind
      fun s => (Lts.run (StoreState.step Runtime.sample
        ArtifactService.default) s forgedDelivery).map fun s' =>
          (s.artifacts.committed.map fun r => (r.storage, r.blobRef),
            s'.mail.blobs.map fun b => b.path.map String.ofList))
      = some ([(.blob, some "sessions/10/artifacts/1")],
        [["sessions", "10", "artifacts", "2"],
          ["ingestion", "email", "_", "_", "sessions", "10", "artifacts",
            "_", "1"],
          ["sessions", "10", "artifacts", "1"]]) := by
    decide +kernel
  obtain ⟨s, hs, hrest⟩ := Option.bind_eq_some_iff.mp hrun
  obtain ⟨s', hs', hmap⟩ := Option.map_eq_some_iff.mp hrest
  obtain ⟨hrows, hpaths⟩ := Prod.mk.inj hmap
  obtain ⟨row, rest, hcommitted, hrow, -⟩ := List.map_eq_cons_iff.mp hrows
  obtain ⟨hblob, href⟩ := Prod.mk.inj hrow
  have hmem : row ∈ s.artifacts.committed := by
    rw [hcommitted]
    exact List.mem_cons_self
  obtain ⟨ref, data, href', hsum, hlater⟩ :=
    (blob_store_safe (Lts.reachable_of_run .init hs)).2 row hmem hblob
  obtain ⟨-, hdata, -⟩ := hlater s' (Lts.reachable_of_run .init hs')
  rw [href] at href'
  injection href' with href'
  subst href'
  exact ⟨s, s', hs, hs', hpaths, row, hmem, data, hdata, hsum⟩

end LegalBot
