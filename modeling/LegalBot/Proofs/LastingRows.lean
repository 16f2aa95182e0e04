/-
What a write gives its row and nothing takes away.

# The invariant

A property of a row and of the blobs is `Lasting` if the row of a write
has it, whose payload was stored as `payloadOf` makes it, and if neither
a later put nor the demotion of the row ends it. `RowsHave` says that
every row, committed or drafted, has it; a write in progress has its
payload from `storePayload` on. `reaches_rows_have` is the induction over
the statements of concurrent transactions.

# Reads

That a row holds some content is such a property, so in the states
reached a read by key finds its payload, and a read that raises has found
no row (`reads_unbroken`).
-/
import LegalBot.Artifacts.LocalBlobStore
import LegalBot.Proofs.Lookups
import LegalBot.Proofs.StoredContent

namespace LegalBot

open VersionChain (Draft demoteIn)

-- ============================================================== statements

/-- The write in progress, from its put on. -/
def WritePoint.pending : WritePoint → Option PendingWrite
  | .selectLatest w | .demote w _ | .insert w _ => some w
  | _ => none

/-- A property of rows that a write establishes and that lasts. -/
structure Lasting (rt : Runtime) (svc : ArtifactService)
    (B : Blobs → Artifact → Prop) : Prop where
  grow : ∀ {blobs blobs' : Blobs} {row : Artifact},
    BlobsGrow blobs blobs' → B blobs row → B blobs' row
  demote : ∀ {blobs : Blobs} {row : Artifact} {ids : List Uuid},
    B blobs row → B blobs (demoteIn ids row)
  written : ∀ {blobs : Blobs} {w : PendingWrite} {prior : Option Uuid},
    payloadOf rt svc w.args = .ok w.payload →
    Placed blobs w.args w.id w.payload → B blobs (w.row rt prior)

/-- Every row has the property, and every write in progress its
payload. -/
structure RowsHave {n : Nat} (rt : Runtime) (svc : ArtifactService)
    (B : Blobs → Artifact → Prop) (s : ArtifactState n) : Prop where
  committed : ∀ r ∈ s.committed, B s.blobs r
  drafted : ∀ t, ∀ r ∈ (s.txs t).draft.inserted, B s.blobs r
  points : ∀ t w, (s.txs t).point.pending = some w →
    payloadOf rt svc w.args = .ok w.payload
      ∧ Placed s.blobs w.args w.id w.payload

-- ============================================================== statements

section Transactions

variable {n : Nat} {rt : Runtime} {svc : ArtifactService}
  {s s' : ArtifactState n} {t : Fin n} {blobs : Blobs}
  {row : Artifact} {w : PendingWrite} {B : Blobs → Artifact → Prop}

/-- A statement that puts nothing leaves the blobs. -/
theorem statement_no_put {id : Uuid} {outcome : StatementOutcome}
    (h : s.statement rt svc t id = some outcome)
    (hput : (s.txs t).point.puts rt svc id = none) :
    (s.after t outcome).blobs = s.blobs := by
  cases outcome with
  | inserted row prior origin => rfl
  | raised e => rfl
  | goes p blobs =>
      unfold ArtifactState.statement at h
      simp only at h
      cases hpoint : (s.txs t).point with
      | storePayload a origin version =>
          rw [hpoint] at h hput
          simp only [WritePoint.puts] at h hput
          cases hpayload : payloadOf rt svc a with
          | error e =>
              rw [hpayload] at h
              cases h
          | ok payload =>
              obtain ⟨data, storage⟩ := payload
              rw [hpayload] at h hput
              cases storage with
              | inline =>
                  simp only at h
                  split at h
                  · cases h
                  · injection h with h
                    injection h with _ hblobs
                    exact hblobs.symm
              | blob => cases hput
      | idle =>
          rw [hpoint] at h
          cases h
      | _ =>
          rw [hpoint] at h
          simp only at h
          grind [ArtifactState.after]

/-- A put is under a fresh reference. -/
theorem statement_put {id : Uuid} {outcome : StatementOutcome}
    {ref : String} {data : List UInt8}
    (h : s.statement rt svc t id = some outcome)
    (hput : (s.txs t).point.puts rt svc id = some (ref, data)) :
    s.blobs ref = none
      ∧ (s.after t outcome).blobs = Function.update s.blobs ref (some data)
      ∧ ∃ sid id, ref = blobRefOf sid id := by
  unfold WritePoint.puts at hput
  split at hput
  · rename_i a origin version hpoint
    split at hput
    · rename_i data hpayload
      simp only [Option.some.injEq, Prod.mk.injEq] at hput
      obtain ⟨rfl, rfl⟩ := hput
      unfold ArtifactState.statement at h
      simp only [hpoint, hpayload] at h
      split at h
      · cases h
      · rename_i hexists
        injection h with h
        rw [← h]
        refine ⟨?_, rfl, _, _, rfl⟩
        by_contra hsome
        exact hexists ⟨trivial, Option.isSome_iff_ne_none.mpr hsome⟩
    · cases hput
  · cases hput

theorem statement_grow {id : Uuid} {outcome : StatementOutcome}
    (h : s.statement rt svc t id = some outcome) :
    BlobsGrow s.blobs (s.after t outcome).blobs := by
  cases hput : (s.txs t).point.puts rt svc id with
  | none =>
      rw [statement_no_put h hput]
      exact fun _ _ href => href
  | some put =>
      obtain ⟨ref, data⟩ := put
      obtain ⟨hfresh, hblobs, -⟩ := statement_put h hput
      intro ref' data' href
      have hne : ref' ≠ ref := by
        rintro rfl
        rw [hfresh] at href
        cases href
      rw [hblobs, Function.update_of_ne hne]
      exact href

/-- A write in progress goes on with its payload, or has just put it. -/
theorem statement_pending {id : Uuid} {p : WritePoint}
    (h : s.statement rt svc t id = some (.goes p blobs))
    (hw : p.pending = some w) :
    (s.txs t).point.pending = some w
      ∨ payloadOf rt svc w.args = .ok w.payload
        ∧ Placed blobs w.args w.id w.payload := by
  unfold ArtifactState.statement at h
  simp only at h
  cases hpoint : (s.txs t).point with
  | storePayload a origin version =>
      rw [hpoint] at h
      simp only at h
      split at h
      · cases h
      · rename_i payload hpayload
        split at h
        · cases h
        · injection h with h
          injection h with hp hblobs
          subst hp hblobs
          injection hw with hw
          subst hw
          exact Or.inr ⟨hpayload, placed_putPayload⟩
  | idle =>
      rw [hpoint] at h
      cases h
  | _ =>
      rw [hpoint] at h
      simp only at h
      grind [WritePoint.pending]

theorem RowsHave.goes (hB : Lasting rt svc B) (h : RowsHave rt svc B s)
    {p : WritePoint} (hgrow : BlobsGrow s.blobs blobs)
    (hp : ∀ w, p.pending = some w →
      payloadOf rt svc w.args = .ok w.payload
        ∧ Placed blobs w.args w.id w.payload) :
    RowsHave rt svc B (s.after t (.goes p blobs)) := by
  refine ⟨fun r hr => hB.grow hgrow (h.committed r hr), fun t' r hr => ?_,
    fun t' w hw => ?_⟩
  · have hsame : ((s.after t (.goes p blobs)).txs t').draft
        = (s.txs t').draft := by
      by_cases ht : t' = t
      · subst ht
        simp only [ArtifactState.after, Function.update_self]
      · simp only [ArtifactState.after, Function.update_of_ne ht]
    rw [hsame] at hr
    exact hB.grow hgrow (h.drafted t' r hr)
  · by_cases ht : t' = t
    · subst ht
      simp only [ArtifactState.after, Function.update_self] at hw
      exact hp w hw
    · simp only [ArtifactState.after, Function.update_of_ne ht] at hw
      obtain ⟨hpayload, hplaced⟩ := h.points t' w hw
      exact ⟨hpayload, hplaced.grow hgrow⟩

/-- Ending a transaction leaves the others. -/
theorem RowsHave.ended {committed : List Artifact}
    {origins : List (Uuid × Origin)} (h : RowsHave rt svc B s)
    (hrows : ∀ r ∈ committed, B s.blobs r) :
    RowsHave rt svc B { s with
      committed := committed
      txs := Function.update s.txs t .start
      origins := origins } := by
  refine ⟨hrows, fun t' r hr => ?_, fun t' w hw => ?_⟩
  · by_cases ht : t' = t
    · subst ht
      simp only [Function.update_self] at hr
      cases hr
    · simp only [Function.update_of_ne ht] at hr
      exact h.drafted t' r hr
  · by_cases ht : t' = t
    · subst ht
      simp only [Function.update_self] at hw
      cases hw
    · simp only [Function.update_of_ne ht] at hw
      exact h.points t' w hw

theorem RowsHave.inserted (hB : Lasting rt svc B)
    (h : RowsHave rt svc B s) {prior : Option Uuid}
    {origin : Option Origin} (hrow : B s.blobs row) :
    RowsHave rt svc B (s.after t (.inserted row prior origin)) := by
  refine ⟨h.committed, fun t' r hr => ?_, fun t' w hw => ?_⟩
  · by_cases ht : t' = t
    · subst ht
      simp only [ArtifactState.after, Function.update_self, Draft.extend]
        at hr
      rcases List.mem_append.mp hr with hr | hr
      · obtain ⟨r', hr', rfl⟩ := List.mem_map.mp hr
        exact hB.demote (h.drafted t' r' hr')
      · rw [List.mem_singleton.mp hr]
        exact hrow
    · simp only [ArtifactState.after, Function.update_of_ne ht] at hr
      exact h.drafted t' r hr
  · by_cases ht : t' = t
    · subst ht
      simp only [ArtifactState.after, Function.update_self] at hw
      cases hw
    · simp only [ArtifactState.after, Function.update_of_ne ht] at hw
      exact h.points t' w hw

/-- One step keeps it. -/
theorem RowsHave.step (hB : Lasting rt svc B) {a : ArtifactAction n}
    (h : RowsHave rt svc B s)
    (hstep : ArtifactState.step rt svc a s = some s') :
    RowsHave rt svc B s' := by
  cases a with
  | call t c =>
      simp only [ArtifactState.step] at hstep
      split at hstep
      · injection hstep with hstep
        subst hstep
        refine h.goes hB (fun _ _ href => href) fun w hw => ?_
        cases c <;> cases hw
      · cases hstep
  | statement t id =>
      obtain ⟨outcome, hs, rfl⟩ := Option.map_eq_some_iff.mp hstep
      cases outcome with
      | goes p blobs =>
          have hgrow : BlobsGrow s.blobs blobs := statement_grow hs
          refine h.goes hB hgrow fun w hw => ?_
          rcases statement_pending hs hw with hold | hput
          · obtain ⟨hpayload, hplaced⟩ := h.points t w hold
            exact ⟨hpayload, hplaced.grow hgrow⟩
          · exact hput
      | inserted row prior origin =>
          obtain ⟨w, hpoint, rfl, -⟩ := statement_inserted hs
          obtain ⟨hpayload, hplaced⟩ :=
            h.points t w (by rw [hpoint]; rfl)
          exact h.inserted hB (hB.written hpayload hplaced)
      | raised e => exact h.ended h.committed
  | commit t =>
      simp only [ArtifactState.step] at hstep
      split at hstep
      · injection hstep with hstep
        subst hstep
        refine h.ended fun r hr => ?_
        rcases List.mem_append.mp hr with hr | hr
        · obtain ⟨r', hr', rfl⟩ := List.mem_map.mp hr
          exact hB.demote (h.committed r' hr')
        · exact h.drafted t r hr
      · cases hstep
  | rollback t =>
      injection hstep with hstep
      subst hstep
      exact h.ended h.committed

/-- The rows of every state reached have it. -/
theorem reaches_rows_have {G : ArtifactAction n → ArtifactState n → Prop}
    (hB : Lasting rt svc B) (h : ArtifactReaches rt svc G s) :
    RowsHave rt svc B s := by
  refine Lts.Reachable.invariant (P := fun s => RowsHave rt svc B s) ?_ ?_ h
  · exact ⟨(fun _ h => by cases h), (fun _ _ h => by cases h),
      fun _ _ h => by cases h⟩
  · intro s a s' _ hs _ hstep
    exact hs.step hB hstep

end Transactions

-- =================================================================== reads

section Reads

variable {n : Nat} {rt : Runtime} {svc : ArtifactService}
  {s : ArtifactState n}

/-- That a row holds some content lasts. -/
theorem holding_lasts : Lasting rt svc fun blobs row =>
    ∃ content, Holds rt blobs row content where
  grow := fun hgrow ⟨content, h⟩ => ⟨content, h.grow hgrow⟩
  demote := by
    rintro blobs row ids ⟨content, h⟩
    refine ⟨content, ?_⟩
    unfold demoteIn
    split
    · exact holds_demote.mpr h
    · exact h
  written := fun hpayload hplaced =>
    ⟨_, holds_newArtifact hpayload hplaced⟩

/-- A JSON blob holds a value that `json.loads` gives back. -/
def StoredLoads (rt : Runtime) (rows : List Artifact) (blobs : Blobs) :
    Prop :=
  ∀ r ∈ rows, r.storage = .blob → r.mime = "application/json" →
    ∃ v, Holds rt blobs r (.value v) ∧ LoadsBack rt v

/-- The payload of a stored row can be read. -/
theorem resolvePayload_stored {rows : List Artifact} {blobs : Blobs}
    {row : Artifact} (hloads : StoredLoads rt rows blobs)
    (hrow : row ∈ rows) (hholds : ∃ content, Holds rt blobs row content) :
    ∃ content, resolvePayload rt blobs row = .ok content := by
  obtain ⟨content, hholds⟩ := hholds
  cases hstorage : row.storage with
  | inline =>
      unfold resolvePayload
      rw [hstorage]
      exact ⟨_, rfl⟩
  | blob =>
      by_cases hmime : row.mime = "application/json"
      · obtain ⟨v, hholds, hback⟩ := hloads row hrow hstorage hmime
        exact ⟨_, hholds.resolve_value hmime hback⟩
      · obtain ⟨data, -, hread⟩ := hholds.resolve_bytes hmime
        exact ⟨_, hread⟩

/-- A read by key that raises has found no row. -/
def ReadsUnbroken (rt : Runtime) (rows : List Artifact) (blobs : Blobs) :
    Prop :=
  ∀ c e, readAt rt rows blobs none c = .error e →
    hasVersion rows none c = false ∧ e.isNotFound = true

theorem reads_unbroken
    (h : ArtifactReaches rt svc Lts.Always s)
    (hloads : StoredLoads rt s.committed s.blobs) :
    ReadsUnbroken rt s.committed s.blobs := by
  intro c e hread
  cases hhas : hasVersion s.committed none c with
  | false =>
      rw [read_of_not_hasVersion hhas] at hread
      injection hread with hread
      exact ⟨rfl, hread ▸ rfl⟩
  | true =>
      obtain ⟨row, hone⟩ := filter_one ((versions_chained h).1 c.1 c.2) hhas
      have hrow : row ∈ s.committed :=
        List.mem_of_mem_filter (hone ▸ List.mem_singleton_self row)
      obtain ⟨content, hcontent⟩ := resolvePayload_stored hloads hrow
        ((reaches_rows_have holding_lasts h).committed row hrow)
      rw [readAt, read_one hone, hcontent] at hread
      cases hread

end Reads

-- =============================================================== scenarios

/-- One transaction that writes once, under id 1. -/
def oneWrite (a : WriteArgs) : List (ArtifactAction 1) :=
  [.call 0 (.write a), .statement 0 0, .statement 0 1, .statement 0 0,
    .statement 0 0, .commit 0]

/-- The state after it. -/
def afterWrite (rt : Runtime) (svc : ArtifactService) (a : WriteArgs) :
    ArtifactState 1 :=
  (Lts.run (ArtifactState.step rt svc) (.init 1) (oneWrite a)).getD
    (.init 1)

theorem afterWrite_reached {rt : Runtime} {svc : ArtifactService}
    {a : WriteArgs}
    (h : (Lts.run (ArtifactState.step rt svc) (.init 1)
      (oneWrite a)).isSome = true) :
    ArtifactReaches rt svc Lts.Always (afterWrite rt svc a) := by
  obtain ⟨s, hs⟩ := Option.isSome_iff_exists.mp h
  unfold afterWrite
  rw [hs]
  exact Lts.reachable_of_run .init hs

/-- It stores the first version. -/
theorem afterWrite_row {rt : Runtime} {svc : ArtifactService}
    {a : WriteArgs} {payload : Payload}
    (hpayload : payloadOf rt svc a = .ok payload)
    (hcap : 1 ≤ svc.versionCap) :
    ArtifactReaches rt svc Lts.Always (afterWrite rt svc a)
      ∧ (afterWrite rt svc a).committed
        = [newArtifact rt a 1 1 payload none]
      ∧ (afterWrite rt svc a).blobs
        = putPayload (fun _ => none) a 1 payload := by
  have hroom : ¬ svc.versionCap < 1 := Nat.not_lt.mpr hcap
  have hversion : nextVersion [] a.sessionId a.key = 1 := rfl
  have hnone : selectLatest [] a.sessionId a.key = .ok none := rfl
  have hrun : ∃ s, Lts.run (ArtifactState.step rt svc) (.init 1)
        (oneWrite a) = some s
      ∧ s.committed = [newArtifact rt a 1 1 payload none]
      ∧ s.blobs = putPayload (fun _ => none) a 1 payload := by
    simp [oneWrite, Lts.run, ArtifactState.step, ArtifactState.init,
      ArtifactState.statement, ArtifactState.after, ArtifactState.commit,
      ArtifactTx.start, ArtifactTx.view, ArtifactCall.entry, hpayload,
      hroom, hversion, hnone, VersionChain.Draft.on,
      VersionChain.Draft.extend, VersionChain.Draft.empty,
      ArtifactState.InsertWaits, Violates, PendingWrite.row]
  obtain ⟨s, hs, hrows, hblobs⟩ := hrun
  refine ⟨afterWrite_reached (by rw [hs]; rfl), ?_⟩
  unfold afterWrite
  rw [hs]
  exact ⟨hrows, hblobs⟩

end LegalBot
