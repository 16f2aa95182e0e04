/-
What a written row holds, and what reading it returns.

# Holding

`Holds` says that a row, with the blob store, keeps a content as `write`
stored it: the JSON value in the row, or its bytes under the row's
reference. `holds_newArtifact` is the one place where it is established;
a demotion and the blobs of later writes keep it.

# Reading

Under `application/json` a row that holds a value is read back as that
value when `json.loads` inverts `json.dumps` on it. Under any other mime
type what is read back is the bytes, whatever was written.
-/
import LegalBot.Artifacts.Service

namespace LegalBot

open Relational (Table)
open VersionChain (Versioned)

/-- `json.loads` inverts `json.dumps` on `v`. -/
def LoadsBack (rt : Runtime) (v : Json) : Prop :=
  rt.loads (Json.encodeUtf8 (Json.dumps v)) = some v

/-- `row` keeps `content` as `write` stores it. -/
def Holds (rt : Runtime) (blobs : Blobs) (row : Artifact)
    (content : Content) : Prop :=
  match row.storage with
  | .inline => row.mime = "application/json"
      ∧ ∃ v, content = .value v ∧ row.contentInline = some v
  | .blob => ∃ data ref, payloadBytes rt row.mime content = .ok data
      ∧ row.blobRef = some ref ∧ blobs ref = some data

/-- The payload is under its reference, unless it goes into the row. -/
def Placed (blobs : Blobs) (a : WriteArgs) (id : Uuid)
    (payload : Payload) : Prop :=
  payload.storage = .blob →
    blobs (blobRefOf a.sessionId id) = some payload.data

/-- Blobs are added, never replaced. -/
def BlobsGrow (blobs blobs' : Blobs) : Prop :=
  ∀ ref data, blobs ref = some data → blobs' ref = some data

section Storing

variable {rt : Runtime} {svc : ArtifactService} {blobs blobs' : Blobs}
  {a : WriteArgs} {id : Uuid} {payload : Payload} {row : Artifact}
  {content : Content} {v : Json}

theorem storageOf_inline {mime : String} {size : Nat}
    (h : storageOf svc mime content size = .inline) :
    mime = "application/json" ∧ ∃ v, content = .value v := by
  unfold storageOf at h
  cases content with
  | value v =>
      simp only at h
      split at h
      · rename_i hinline
        exact ⟨hinline.1, v, rfl⟩
      · cases h
  | bytes data => cases h

/-- The payload of a write carries the bytes of its content. -/
theorem payloadOf_ok (h : payloadOf rt svc a = .ok payload) :
    payloadBytes rt a.mime a.content = .ok payload.data
      ∧ payload.storage
        = storageOf svc a.mime a.content payload.data.length := by
  unfold payloadOf at h
  cases hbytes : payloadBytes rt a.mime a.content with
  | error e =>
      rw [hbytes] at h
      cases h
  | ok data =>
      rw [hbytes] at h
      injection h with h
      subst h
      exact ⟨rfl, rfl⟩

/-- Under `application/json` only values have a payload. -/
theorem value_of_payloadBytes {data : List UInt8}
    (h : payloadBytes rt "application/json" content = .ok data) :
    ∃ v, content = .value v := by
  cases content with
  | value v => exact ⟨v, rfl⟩
  | bytes data =>
      unfold payloadBytes at h
      rw [if_pos rfl] at h
      cases h

theorem placed_putPayload :
    Placed (putPayload blobs a id payload) a id payload := by
  intro hblob
  unfold putPayload
  rw [hblob]
  exact Function.update_self _ _ _

theorem Placed.grow (hgrow : BlobsGrow blobs blobs')
    (h : Placed blobs a id payload) : Placed blobs' a id payload :=
  fun hblob => hgrow _ _ (h hblob)

/-- A blob under a fresh reference replaces nothing. -/
theorem putPayload_grow
    (hfresh : payload.storage = .blob →
      blobs (blobRefOf a.sessionId id) = none) :
    BlobsGrow blobs (putPayload blobs a id payload) := by
  intro ref data href
  unfold putPayload
  cases hstorage : payload.storage with
  | inline => exact href
  | blob =>
      have hne : ref ≠ blobRefOf a.sessionId id := by
        rintro rfl
        rw [hfresh hstorage] at href
        cases href
      show Function.update _ _ _ _ = _
      rw [Function.update_of_ne hne]
      exact href

/-- The row a write inserts holds the content written. -/
theorem holds_newArtifact {version : Nat} {prior : Option Uuid}
    (hpayload : payloadOf rt svc a = .ok payload)
    (hplaced : Placed blobs a id payload) :
    Holds rt blobs (newArtifact rt a id version payload prior)
      a.content := by
  obtain ⟨hbytes, hstorage⟩ := payloadOf_ok hpayload
  unfold Holds newArtifact
  cases hkind : payload.storage with
  | inline =>
      rw [hkind] at hstorage
      obtain ⟨hmime, v, hv⟩ := storageOf_inline hstorage.symm
      simp only [hv]
      exact ⟨hmime, v, rfl, rfl⟩
  | blob => exact ⟨payload.data, _, hbytes, rfl, hplaced hkind⟩

theorem Holds.grow (hgrow : BlobsGrow blobs blobs')
    (h : Holds rt blobs row content) : Holds rt blobs' row content := by
  unfold Holds at h ⊢
  cases hstorage : row.storage with
  | inline =>
      rw [hstorage] at h
      exact h
  | blob =>
      rw [hstorage] at h
      obtain ⟨data, ref, hbytes, href, hdata⟩ := h
      exact ⟨data, ref, hbytes, href, hgrow _ _ hdata⟩

/-- Neither what a row holds nor what it is read as depends on its
flag. -/
theorem holds_demote : Holds rt blobs (Versioned.demote row) content
    ↔ Holds rt blobs row content := Iff.rfl

theorem resolvePayload_demote :
    resolvePayload rt blobs (Versioned.demote row)
      = resolvePayload rt blobs row := rfl

/-- What was read can still be read. -/
theorem resolvePayload_grow (hgrow : BlobsGrow blobs blobs')
    (h : resolvePayload rt blobs row = .ok content) :
    resolvePayload rt blobs' row = .ok content := by
  unfold resolvePayload at h ⊢
  cases hstorage : row.storage with
  | inline =>
      rw [hstorage] at h
      exact h
  | blob =>
      rw [hstorage] at h
      simp only at h ⊢
      cases href : row.blobRef with
      | none =>
          rw [href] at h
          cases h
      | some ref =>
          rw [href] at h
          simp only at h ⊢
          cases hdata : blobs ref with
          | none =>
              rw [hdata] at h
              cases h
          | some data =>
              rw [hdata] at h
              rw [hgrow _ _ hdata]
              exact h

-- ================================================================= reading

/-- A JSON row is read back as the value it holds. -/
theorem Holds.resolve_value (h : Holds rt blobs row (.value v))
    (hmime : row.mime = "application/json") (hloads : LoadsBack rt v) :
    resolvePayload rt blobs row = .ok (.value v) := by
  unfold Holds at h
  unfold resolvePayload
  cases hstorage : row.storage with
  | inline =>
      rw [hstorage] at h
      obtain ⟨-, v', hv, hinline⟩ := h
      injection hv with hv
      subst hv
      simp only [hinline, Option.getD_some]
  | blob =>
      rw [hstorage] at h
      obtain ⟨data, ref, hbytes, href, hdata⟩ := h
      unfold payloadBytes at hbytes
      rw [if_pos hmime] at hbytes
      injection hbytes with hbytes
      subst hbytes
      simp only [href, hdata, if_pos hmime]
      rw [hloads]

/-- Any other row is read back as bytes. -/
theorem Holds.resolve_bytes (h : Holds rt blobs row content)
    (hmime : row.mime ≠ "application/json") :
    ∃ data, payloadBytes rt row.mime content = .ok data
      ∧ resolvePayload rt blobs row = .ok (.bytes data) := by
  unfold Holds at h
  unfold resolvePayload
  cases hstorage : row.storage with
  | inline =>
      rw [hstorage] at h
      exact absurd h.1 hmime
  | blob =>
      rw [hstorage] at h
      obtain ⟨data, ref, hbytes, href, hdata⟩ := h
      refine ⟨data, hbytes, ?_⟩
      simp only [href, hdata, if_neg hmime]

/-- A row that is there is never reported as not found. -/
theorem resolvePayload_error {e : ArtifactError}
    (h : resolvePayload rt blobs row = .error e) : e.isNotFound = false := by
  unfold resolvePayload at h
  cases hstorage : row.storage with
  | inline =>
      rw [hstorage] at h
      cases h
  | blob =>
      rw [hstorage] at h
      simp only at h
      split at h
      · injection h with h
        subst h
        rfl
      · split at h
        · injection h with h
          subst h
          rfl
        · split at h
          · split at h
            · cases h
            · injection h with h
              subst h
              rfl
          · cases h

/-- A JSON row holds a value. -/
theorem Holds.value (h : Holds rt blobs row content)
    (hmime : row.mime = "application/json") : ∃ v, content = .value v := by
  unfold Holds at h
  cases hstorage : row.storage with
  | inline =>
      rw [hstorage] at h
      obtain ⟨-, v, hv, -⟩ := h
      exact ⟨v, hv⟩
  | blob =>
      rw [hstorage] at h
      obtain ⟨data, ref, hbytes, -⟩ := h
      rw [hmime] at hbytes
      exact value_of_payloadBytes hbytes

end Storing

section Reading

variable {rt : Runtime} {blobs : Blobs} {rows : List Artifact}
  {sid : Uuid} {key : KeyOrId} {version : Option Nat} {row : Artifact}
  {content : Content}

/-- What `read` returns is a row that matches, with its content. -/
theorem read_ok (h : read rt rows blobs sid key version
    = .ok (row, content)) :
    rows.filter (readMatches sid key version) = [row]
      ∧ resolvePayload rt blobs row = .ok content := by
  unfold read at h
  cases hone : scalarOneOrNone
      (rows.filter (readMatches sid key version)) with
  | error e =>
      rw [hone] at h
      cases h
  | ok found =>
      cases found with
      | none =>
          rw [hone] at h
          cases h
      | some row' =>
          rw [hone] at h
          cases hpayload : resolvePayload rt blobs row' with
          | error e =>
              simp only [bind, Except.bind, hpayload] at h
              cases h
          | ok content' =>
              simp only [bind, Except.bind, hpayload] at h
              injection h with h
              injection h with hrow hcontent
              subst hrow hcontent
              exact ⟨scalarOneOrNone_some hone, hpayload⟩

/-- The only row that matches is read. -/
theorem read_one
    (hone : rows.filter (readMatches sid key version) = [row]) :
    read rt rows blobs sid key version
      = (resolvePayload rt blobs row).map fun content => (row, content) := by
  unfold read
  rw [hone]
  show (resolvePayload rt blobs row >>= fun content =>
    pure (row, content)) = _
  cases resolvePayload rt blobs row <;> rfl

theorem read_none
    (hnone : rows.filter (readMatches sid key version) = []) :
    read rt rows blobs sid key version = .error key.notFound := by
  unfold read
  rw [hnone]
  rfl

end Reading

-- ================================================================== writing

section Writing

variable {rt : Runtime} {svc : ArtifactService}
  {artifacts artifacts' : Table Artifact} {blobs blobs' : Blobs}
  {a : WriteArgs} {id : Uuid} {row : Artifact}

/-- An insert that goes through violates no index and adds its row. -/
theorem insertArtifact_ok
    (h : insertArtifact artifacts row = .ok artifacts') :
    ¬ Violates artifacts.rows row
      ∧ artifacts'.rows = artifacts.rows ++ [row] := by
  unfold insertArtifact at h
  split at h
  · cases h
  · rename_i hviolates
    split at h
    · rename_i hinsert
      injection h with h
      subst h
      exact ⟨hviolates, Table.insert_rows hinsert⟩
    · cases h

/-- What a write that returns has done. -/
theorem write_ok
    (h : write rt svc artifacts blobs a id = .ok (row, artifacts', blobs')) :
    ∃ payload prior, payloadOf rt svc a = .ok payload
      ∧ blobs' = putPayload blobs a id payload
      ∧ row = newArtifact rt a id
        (nextVersion artifacts.rows a.sessionId a.key) payload prior
      ∧ ¬ Violates (demoteLatest artifacts prior).rows row
      ∧ artifacts'.rows = (demoteLatest artifacts prior).rows ++ [row]
      ∧ selectLatest artifacts.rows a.sessionId a.key = .ok prior
      ∧ nextVersion artifacts.rows a.sessionId a.key ≤ svc.versionCap := by
  unfold write at h
  simp only [bind, Except.bind, pure, Except.pure, throw, throwThe,
    MonadExceptOf.throw] at h
  split at h
  · cases h
  · rename_i hcap
    cases hpayload : payloadOf rt svc a with
    | error e =>
        rw [hpayload] at h
        cases h
    | ok payload =>
        rw [hpayload] at h
        simp only at h
        cases hprior : selectLatest artifacts.rows a.sessionId a.key with
        | error e =>
            rw [hprior] at h
            cases h
        | ok prior =>
            rw [hprior] at h
            simp only at h
            split at h
            · cases h
            · rename_i hinsert
              injection h with h
              simp only [Prod.mk.injEq] at h
              obtain ⟨rfl, rfl, rfl⟩ := h
              obtain ⟨hviolates, hrows⟩ := insertArtifact_ok hinsert
              exact ⟨payload, prior, rfl, rfl, rfl, hviolates, hrows, rfl,
                not_lt.mp hcap⟩

/-- The new row holds the content. -/
theorem write_holds
    (h : write rt svc artifacts blobs a id = .ok (row, artifacts', blobs')) :
    Holds rt blobs' row a.content ∧ row.mime = a.mime ∧ row.key = a.key
      ∧ row.sessionId = a.sessionId := by
  obtain ⟨payload, prior, hpayload, rfl, rfl, -, -⟩ := write_ok h
  exact ⟨holds_newArtifact hpayload placed_putPayload, rfl, rfl, rfl⟩

/-- The new row is the only latest one of its key. -/
theorem write_latest
    (h : write rt svc artifacts blobs a id = .ok (row, artifacts', blobs')) :
    artifacts'.rows.filter (readMatches a.sessionId (.key a.key) none)
      = [row] := by
  obtain ⟨payload, prior, -, -, hrow, hviolates, hrows, -⟩ := write_ok h
  have hnone : (demoteLatest artifacts prior).rows.filter
      (readMatches a.sessionId (.key a.key) none) = [] := by
    refine List.filter_eq_nil_iff.mpr fun r hr hmatch => ?_
    -- the unique index on `is_latest` would have refused the row
    obtain ⟨hsid, hkey, hlatest⟩ := of_decide_eq_true hmatch
    refine hviolates ⟨r, hr, Or.inr ?_⟩
    rw [hrow]
    exact ⟨hsid, hkey, Or.inr ⟨hlatest, rfl⟩⟩
  have hone : readMatches a.sessionId (.key a.key) none row = true := by
    rw [hrow]
    simp [readMatches, versionMatches, newArtifact]
  rw [hrows, List.filter_append, hnone, List.nil_append]
  simp [hone]

end Writing

end LegalBot
