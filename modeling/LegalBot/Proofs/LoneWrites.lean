/-
`ArtifactService.write` and `update` alone on the database.

On version chains (`Chains`, which every reachable table is, see
`Proofs/ArtifactVersions.lean`) a write fails for two reasons only: its
payload has no bytes, or the next version is past the cap
(`write_succeeds`). One that returns appends a version to its own key and
leaves every other key as it was (`write_appends`).
-/
import LegalBot.Interrupts.ProvidedFields
import LegalBot.Lib.Drafts
import LegalBot.Proofs.StoredContent

namespace LegalBot

open Relational (HasKey Table)
open VersionChain (Appended IsChain Versioned demoteIn lastId maxVersion
  mem_rowsOf rowsOf)

-- ================================================================= chains

/-- The versions of every key are a chain. -/
def Chains (artifacts : Table Artifact) : Prop :=
  ∀ cell, IsChain (rowsOf cell artifacts.rows)

/-- On a chain the latest row is the last one. -/
theorem selectLatest_of_isChain {rows : List Artifact} {sid : Uuid}
    {key : String} (h : IsChain (rowsOf (sid, key) rows)) :
    selectLatest rows sid key = .ok (lastId (rowsOf (sid, key) rows)) := by
  have hflagged : (rowsOf (sid, key) rows).filter (fun r => r.isLatest)
      = (rowsOf (sid, key) rows).getLast?.toList := h.flagged
  unfold selectLatest lastId
  rw [hflagged]
  cases (rowsOf (sid, key) rows).getLast? <;> rfl

-- ============================================================ on any table

/-- `rows'` is `rows` with one version added to a key: `row`, the next
one, which is now the latest. The other rows are kept, those of the key
up to their flag. -/
structure AddsVersion (sid : Uuid) (key : String) (rows : List Artifact)
    (row : Artifact) (rows' : List Artifact) : Prop where
  cell : row.sessionId = sid ∧ row.key = key
  version : row.version = nextVersion rows sid key
  kept : rows'.map Versioned.demote
    = rows.map Versioned.demote ++ [Versioned.demote row]
  others : ∀ cell, cell ≠ (sid, key) →
    rowsOf cell rows' = rowsOf cell rows
  latest : rows'.filter (readMatches sid (.key key) none) = [row]

section Writing

variable {rt : Runtime} {svc : ArtifactService}
  {artifacts artifacts' : Table Artifact} {blobs blobs' : Blobs}
  {a : WriteArgs} {u : UpdateArgs} {id : Uuid} {row : Artifact}

/-- On a chain the next version counts the ones there are. -/
theorem Chains.nextVersion (hc : Chains artifacts) (sid : Uuid)
    (key : String) : nextVersion artifacts.rows sid key
      = (rowsOf (sid, key) artifacts.rows).length + 1 := by
  unfold LegalBot.nextVersion
  rw [(hc (sid, key)).linked.maxVersion_eq]

theorem demoteLatest_rows (artifacts : Table Artifact)
    (prior : Option Uuid) : (demoteLatest artifacts prior).rows
      = artifacts.rows.map (demoteIn prior.toList) := by
  refine List.map_congr_left fun r _ => ?_
  unfold demoteIn
  cases prior with
  | none => simp
  | some p =>
      by_cases hr : r.id = p
      · simp [hr, Versioned.id, Versioned.demote]
      · simp [hr, Versioned.id]

/-- What is demoted is a row of the key. -/
theorem selectLatest_ok {rows : List Artifact} {sid : Uuid} {key : String}
    {p : Uuid} (h : selectLatest rows sid key = .ok (some p)) :
    ∃ r ∈ rows, r.id = p ∧ Versioned.cell r = (sid, key) := by
  have hone := scalarOneOrNone_some h
  have hmem : p ∈ ((rowsOf (sid, key) rows).filter
      fun r => r.isLatest).map (·.id) := by
    rw [hone]
    exact List.mem_singleton_self p
  obtain ⟨r, hr, hid⟩ := List.mem_map.mp hmem
  obtain ⟨hrow, hcell⟩ := mem_rowsOf.mp (List.mem_filter.mp hr).1
  exact ⟨r, hrow, hid, hcell⟩

/-- A write that returns adds one version, whatever the table holds. -/
theorem write_adds
    (h : write rt svc artifacts blobs a id = .ok (row, artifacts', blobs')) :
    AddsVersion a.sessionId a.key artifacts.rows row artifacts'.rows := by
  have hlatest := write_latest h
  obtain ⟨payload, prior, -, -, rfl, -, hrows, hprior, -⟩ := write_ok h
  rw [demoteLatest_rows] at hrows
  refine ⟨⟨rfl, rfl⟩, rfl, ?_, fun cell hcell => ?_, hlatest⟩
  · rw [hrows, List.map_append, List.map_map, List.map_singleton]
    congr 1
    exact List.map_congr_left fun r _ => VersionChain.demote_demoteIn
  · have hnone : rowsOf cell [newArtifact rt a id
        (nextVersion artifacts.rows a.sessionId a.key) payload prior]
        = [] := by
      refine List.filter_eq_nil_iff.mpr fun r hr => ?_
      rw [List.mem_singleton.mp hr]
      simpa using fun hsame => hcell hsame.symm
    rw [hrows, VersionChain.rowsOf_append, hnone, List.append_nil]
    refine VersionChain.rowsOf_demoted_elsewhere artifacts.nodup
      fun q hq => ?_
    rw [Option.mem_toList.mp hq] at hprior
    obtain ⟨r, hr, hid, hmine⟩ := selectLatest_ok hprior
    exact ⟨r, hr, hid, fun hsame => hcell (hsame.symm.trans hmine)⟩

/-- The row of a write, on the chain of its key. -/
theorem appended_newArtifact (hc : Chains artifacts) {payload : Payload}
    {prior : Option Uuid}
    (hprior : prior = lastId (rowsOf (a.sessionId, a.key) artifacts.rows)) :
    Appended artifacts.rows (newArtifact rt a id
        (nextVersion artifacts.rows a.sessionId a.key) payload prior)
      ((demoteLatest artifacts prior).rows ++ [newArtifact rt a id
        (nextVersion artifacts.rows a.sessionId a.key) payload prior]) := by
  subst hprior
  refine ⟨?_, hc.nextVersion a.sessionId a.key, rfl, rfl⟩
  rw [demoteLatest_rows]
  rfl

/-- A write that returns appends a version to its key. -/
theorem write_appends (hc : Chains artifacts)
    (h : write rt svc artifacts blobs a id = .ok (row, artifacts', blobs')) :
    Appended artifacts.rows row artifacts'.rows
      ∧ row.sessionId = a.sessionId ∧ row.key = a.key ∧ row.id = id := by
  obtain ⟨payload, prior, -, -, rfl, -, hrows, hprior, -⟩ := write_ok h
  rw [selectLatest_of_isChain (hc (a.sessionId, a.key))] at hprior
  injection hprior with hprior
  rw [hrows]
  exact ⟨appended_newArtifact hc hprior.symm, rfl, rfl, rfl⟩

/-- A new version of a chain violates no index, under a fresh id. -/
theorem not_violates (hc : Chains artifacts) {payload : Payload}
    (hfresh : ∀ r ∈ artifacts.rows, r.id ≠ id) :
    let prior := lastId (rowsOf (a.sessionId, a.key) artifacts.rows)
    ¬ Violates (demoteLatest artifacts prior).rows (newArtifact rt a id
      (nextVersion artifacts.rows a.sessionId a.key) payload prior) := by
  rintro prior ⟨r, hr, hconflict⟩
  rw [demoteLatest_rows] at hr
  obtain ⟨x, hx, rfl⟩ := List.mem_map.mp hr
  rcases Artifact.conflicts_iff.mp hconflict with hid | ⟨hcell, hsame⟩
  · rw [VersionChain.id_demoteIn] at hid
    exact hfresh x hx hid
  · rw [VersionChain.cell_demoteIn] at hcell
    have hmem : x ∈ rowsOf (a.sessionId, a.key) artifacts.rows :=
      mem_rowsOf.mpr ⟨hx, hcell⟩
    rcases hsame with hversion | ⟨hlatest, -⟩
    · rw [VersionChain.version_demoteIn] at hversion
      have hle := ((hc _).linked.version_le hmem).2
      have hnext : Versioned.version x
          = nextVersion artifacts.rows a.sessionId a.key := hversion
      rw [hc.nextVersion] at hnext
      omega
    · rw [(hc _).demoted_last _ (List.mem_map_of_mem hmem)] at hlatest
      cases hlatest

/-- Within the cap, a payload that has bytes is written. -/
theorem write_succeeds (hc : Chains artifacts)
    (hfresh : ∀ r ∈ artifacts.rows, r.id ≠ id) {payload : Payload}
    (hpayload : payloadOf rt svc a = .ok payload)
    (hcap : nextVersion artifacts.rows a.sessionId a.key
      ≤ svc.versionCap) :
    ∃ row artifacts' blobs',
      write rt svc artifacts blobs a id = .ok (row, artifacts', blobs') := by
  have hviolates := @not_violates rt artifacts a id hc payload hfresh
  have hkey : HasKey.key (newArtifact rt a id
      (nextVersion artifacts.rows a.sessionId a.key) payload
      (lastId (rowsOf (a.sessionId, a.key) artifacts.rows)))
      ∉ (demoteLatest artifacts (lastId (rowsOf (a.sessionId, a.key)
        artifacts.rows))).rows.map HasKey.key := by
    intro hin
    obtain ⟨r, hr, hid⟩ := List.mem_map.mp hin
    exact hviolates ⟨r, hr, Or.inl hid⟩
  unfold write
  simp only [not_lt.mpr hcap, if_false, hpayload,
    selectLatest_of_isChain (hc (a.sessionId, a.key)), bind, Except.bind,
    pure, Except.pure, insertArtifact, if_neg hviolates, Table.insert,
    dif_neg hkey]
  exact ⟨_, _, _, rfl⟩

/-- It leaves chains. -/
theorem write_chains (hc : Chains artifacts)
    (h : write rt svc artifacts blobs a id = .ok (row, artifacts', blobs')) :
    Chains artifacts' :=
  (write_appends hc h).1.chains artifacts.nodup hc

end Writing

-- ================================================================= updates

section Updating

variable {rt : Runtime} {svc : ArtifactService}
  {artifacts artifacts' : Table Artifact} {blobs blobs' : Blobs}
  {u : UpdateArgs} {id : Uuid}

/-- The write of an update is about its own key. -/
theorem updateFrom_args {current : Except ArtifactError (Artifact × Content)}
    {a : WriteArgs} {row : Option Artifact} {previous : Content}
    (h : updateFrom rt u current = .ok (a, row, previous)) :
    ∃ content, a = u.writeArgs row content := by
  unfold updateFrom at h
  cases hmerge : u.merge with
  | jsonMergePatch =>
      rw [hmerge] at h
      cases current with
      | ok found =>
          simp only at h
          split at h
          · cases h
          · injection h with h
            simp only [Prod.mk.injEq] at h
            obtain ⟨rfl, rfl, -⟩ := h
            exact ⟨_, rfl⟩
      | error e =>
          simp only at h
          split at h
          · split at h
            · cases h
            · injection h with h
              simp only [Prod.mk.injEq] at h
              obtain ⟨rfl, rfl, -⟩ := h
              exact ⟨_, rfl⟩
          · cases h
  | jsonPatch =>
      rw [hmerge] at h
      cases current with
      | ok found =>
          simp only at h
          split at h
          · injection h with h
            simp only [Prod.mk.injEq] at h
            obtain ⟨rfl, rfl, -⟩ := h
            exact ⟨_, rfl⟩
          · cases h
      | error e => cases h
  | replace =>
      rw [hmerge] at h
      cases current with
      | ok found =>
          injection h with h
          simp only [Prod.mk.injEq] at h
          obtain ⟨rfl, rfl, -⟩ := h
          exact ⟨_, rfl⟩
      | error e =>
          simp only at h
          split at h
          · injection h with h
            simp only [Prod.mk.injEq] at h
            obtain ⟨rfl, rfl, -⟩ := h
            exact ⟨_, rfl⟩
          · cases h

/-- An update that returns has read and written. -/
theorem update_ok (h : svc.update rt artifacts blobs u id
    = .ok (artifacts', blobs')) :
    ∃ a from' previous row,
      updateFrom rt u (read rt artifacts.rows blobs u.sessionId (.key u.key)
        none) = .ok (a, from', previous)
      ∧ write rt svc artifacts blobs a id
        = .ok (row, artifacts', blobs') := by
  unfold ArtifactService.update at h
  simp only [bind, Except.bind, pure, Except.pure] at h
  split at h
  · cases h
  · rename_i made hmade
    split at h
    · cases h
    · rename_i stored hstored
      obtain ⟨a, from', previous⟩ := made
      obtain ⟨row, arts, bs⟩ := stored
      injection h with h
      simp only [Prod.mk.injEq] at h
      obtain ⟨rfl, rfl⟩ := h
      exact ⟨a, from', previous, row, hmade, hstored⟩

/-- It appends a version to its key. -/
theorem update_appends (hc : Chains artifacts)
    (h : svc.update rt artifacts blobs u id = .ok (artifacts', blobs')) :
    ∃ row, Appended artifacts.rows row artifacts'.rows
      ∧ row.sessionId = u.sessionId ∧ row.key = u.key ∧ row.id = id := by
  obtain ⟨a, from', previous, row, hmade, hwrite⟩ := update_ok h
  obtain ⟨content, rfl⟩ := updateFrom_args hmade
  exact ⟨row, write_appends hc hwrite⟩

theorem update_chains (hc : Chains artifacts)
    (h : svc.update rt artifacts blobs u id = .ok (artifacts', blobs')) :
    Chains artifacts' := by
  obtain ⟨row, happended, -⟩ := update_appends hc h
  exact happended.chains artifacts.nodup hc

/-- The ids of a table are not among the uuid4 values still to be
drawn. -/
def Undrawn (draw : Nat → Uuid) (n : Nat) (artifacts : Table Artifact) :
    Prop :=
  ∀ r ∈ artifacts.rows, ∀ i, n ≤ i → r.id ≠ draw i

/-- A write uses one value up. -/
theorem undrawn_update {draw : Nat → Uuid} {n : Nat}
    (hinj : Function.Injective draw) (hc : Chains artifacts)
    (hn : Undrawn draw n artifacts)
    (h : svc.update rt artifacts blobs u (draw n)
      = .ok (artifacts', blobs')) :
    Undrawn draw (n + 1) artifacts' := by
  obtain ⟨row, happended, -, -, hid⟩ := update_appends hc h
  intro r hr i hi
  have hmem : Versioned.id r ∈ artifacts'.rows.map Versioned.id :=
    List.mem_map_of_mem hr
  rw [happended.ids] at hmem
  rcases List.mem_append.mp hmem with hold | hnew
  · obtain ⟨x, hx, hxid⟩ := List.mem_map.mp hold
    have hne : Versioned.id x ≠ draw i := hn x hx i (by omega)
    rwa [hxid] at hne
  · have hrow : r.id = row.id := List.mem_singleton.mp hnew
    rw [hrow, hid]
    exact fun hsame => by
      have hlt := hinj hsame
      omega

end Updating

end LegalBot
