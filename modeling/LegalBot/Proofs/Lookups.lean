/-
Where `read_resolved` looks.

# Places

A place is a session and a key. `lookups` lists the places in the order
of the two loops: the candidate keys in the session, then in each other
session of its thread. A read stops at the first place that has a row of
the version asked for, whatever comes of it there (`resolvesTo`), so
`read_resolved` is the read at one place or finds nothing
(`readResolved_eq`).

# Chains

In the states that the writes reach, the rows of a place are the versions
of a chain: it has a latest row if it has any (`hasVersion_latest`), and
each version once (`filter_one`).
-/
import LegalBot.Proofs.ArtifactVersions
import LegalBot.Proofs.TenantReads

namespace LegalBot

open VersionChain (mem_rowsOf rowsOf)

-- ================================================================== places

/-- A row of that version is at the place. -/
def hasVersion (rows : List Artifact) (version : Option Nat)
    (c : Uuid × String) : Bool :=
  rows.any (readMatches c.1 (.key c.2) version)

/-- The session has the artifact, of whatever version. -/
def holdsKey (rows : List Artifact) (sid : Uuid) (key : String) : Bool :=
  rows.any fun r => r.sessionId = sid ∧ r.key = key

/-- The other sessions of the thread. -/
def siblingsOf (db : Db) (sid : Uuid) : List Uuid :=
  (sessionIdsInEmailThread db sid).filter (· ≠ sid)

/-- The candidate keys in each of the sessions. -/
def placesOf (candidates : List String) (ids : List Uuid) :
    List (Uuid × String) :=
  ids.flatMap fun id => candidates.map fun key => (id, key)

theorem placesOf_nil (ids : List Uuid) : placesOf [] ids = [] := by
  induction ids with
  | nil => rfl
  | cons id rest ih => exact ih

theorem placesOf_cons (candidates : List String) (id : Uuid)
    (ids : List Uuid) :
    placesOf candidates (id :: ids)
      = (candidates.map fun key => (id, key)) ++ placesOf candidates ids :=
  List.flatMap_cons

/-- The places where `read_resolved` looks. -/
def lookups (db : Db) (sid : Uuid) (k : String) : List (Uuid × String) :=
  placesOf (artifactKeyCandidates k) (sid :: siblingsOf db sid)

/-- The first of them that has the version. -/
def resolvesTo (db : Db) (sid : Uuid) (k : String)
    (version : Option Nat) : Option (Uuid × String) :=
  (lookups db sid k).find? (hasVersion db.artifacts.rows version)

-- ================================================================== search

section Search

variable {rt : Runtime} {rows : List Artifact} {blobs : Blobs}
  {sid : Uuid} {version : Option Nat}

/-- The read at a place. -/
def readAt (rt : Runtime) (rows : List Artifact) (blobs : Blobs)
    (version : Option Nat) (c : Uuid × String) :
    Except ArtifactError (Artifact × Content) :=
  read rt rows blobs c.1 (.key c.2) version

theorem read_of_not_hasVersion {c : Uuid × String}
    (h : hasVersion rows version c = false) :
    readAt rt rows blobs version c = .error (.notFound c.2) :=
  read_none (List.filter_eq_nil_iff.mpr (List.any_eq_false.mp h))

/-- The loop over the candidates reads at the first that has the
version. -/
theorem readFirst_eq (candidates : List String) :
    readFirst rt rows blobs sid version candidates
      = (((candidates.map fun key => (sid, key)).find?
        (hasVersion rows version)).map (readAt rt rows blobs version)) := by
  induction candidates with
  | nil => rfl
  | cons k rest ih =>
      rw [List.map_cons, List.find?_cons]
      conv_lhs => unfold readFirst
      cases hhas : hasVersion rows version (sid, k) with
      | false =>
          have hread : read rt rows blobs sid (.key k) version
              = .error (.notFound k) :=
            read_of_not_hasVersion hhas
          simp only [hread, ArtifactError.isNotFound, if_true]
          exact ih
      | true =>
          obtain ⟨r, hr, hmatch⟩ := List.any_eq_true.mp hhas
          cases hread : read rt rows blobs sid (.key k) version with
          | ok found => simp only [Option.map_some, readAt, hread]
          | error e =>
              have hother := read_of_match hr hmatch hread
              simp only [hother, Bool.false_eq_true, if_false,
                Option.map_some, readAt, hread]

/-- So does the loop over the sessions. -/
theorem readSiblings_eq (candidates : List String) (ids : List Uuid) :
    readSiblings rt rows blobs sid version candidates ids
      = (((placesOf candidates (ids.filter (· ≠ sid))).find?
        (hasVersion rows version)).map (readAt rt rows blobs version)) := by
  induction ids with
  | nil => rfl
  | cons id rest ih =>
      unfold readSiblings
      by_cases hid : id = sid
      · rw [if_pos hid, List.filter_cons_of_neg (by simp [hid])]
        exact ih
      · rw [if_neg hid, List.filter_cons_of_pos (by simp [hid]),
          readFirst_eq]
        rw [placesOf_cons, List.find?_append]
        cases (candidates.map fun key => (id, key)).find?
            (hasVersion rows version) with
        | some c => rfl
        | none => exact ih

/-- `read_resolved` is the read at the first place that has the
version. -/
theorem readResolved_eq {db : Db} (k : String) :
    readResolved rt db blobs sid (.key k) version true
      = match resolvesTo db sid k version with
        | some c => readAt rt db.artifacts.rows blobs version c
        | none => .error (.notFound k) := by
  unfold readResolved resolvesTo lookups siblingsOf
  simp only [if_true, readFirst_eq, readSiblings_eq]
  cases hcandidates : artifactKeyCandidates k with
  | nil =>
      simp only [placesOf_nil]
      rfl
  | cons key rest =>
      simp only [List.isEmpty_cons, Bool.false_eq_true, if_false]
      rw [placesOf_cons, List.find?_append]
      cases ((key :: rest).map fun key => (sid, key)).find?
          (hasVersion db.artifacts.rows version) with
      | some c => rfl
      | none =>
          cases (placesOf (key :: rest) ((sessionIdsInEmailThread db
              sid).filter (· ≠ sid))).find?
              (hasVersion db.artifacts.rows version) with
          | some c => rfl
          | none => rfl

/-- Without the fallback, at the first of the session's own places. -/
theorem readResolved_own_eq {db : Db} (k : String) :
    readResolved rt db blobs sid (.key k) version false
      = match ((artifactKeyCandidates k).map fun key => (sid, key)).find?
          (hasVersion db.artifacts.rows version) with
        | some c => readAt rt db.artifacts.rows blobs version c
        | none => .error (.notFound k) := by
  unfold readResolved
  simp only [readFirst_eq, Bool.false_eq_true, if_false]
  cases hcandidates : artifactKeyCandidates k with
  | nil => rfl
  | cons key rest =>
      cases ((key :: rest).map fun key => (sid, key)).find?
          (hasVersion db.artifacts.rows version) with
      | some c => rfl
      | none => rfl

/-- A key with a slash is looked up as it is, but for the space around
it. -/
theorem artifactKeyCandidates_of_slash {k : String} (h : '/' ∈ k.toList) :
    artifactKeyCandidates k = [strip k] := by
  have hslash := slash_mem_strip h
  have hne : strip k ≠ "" := by
    intro hempty
    rw [hempty] at hslash
    cases hslash
  unfold artifactKeyCandidates
  simp only [if_neg hne, if_pos hslash]

end Search

-- ================================================================== chains

section Chains

variable {cap : Nat} {rows : List Artifact} {c : Uuid × String}

/-- What a read at a place selects, among the rows of the place. -/
theorem filter_readMatches (version : Option Nat) :
    rows.filter (readMatches c.1 (.key c.2) version)
      = (rowsOf c rows).filter (versionMatches version) := by
  unfold rowsOf
  rw [List.filter_filter]
  refine List.filter_congr fun r _ => ?_
  unfold readMatches
  simp only [VersionChain.Versioned.cell, Prod.ext_iff]
  cases versionMatches version r <;> simp

/-- A place that has rows has a latest one. -/
theorem hasVersion_latest (h : VersionsChained cap rows c.1 c.2) :
    hasVersion rows none c = holdsKey rows c.1 c.2 := by
  obtain ⟨n, -, hversions, hlatest, -⟩ := h
  rw [Bool.eq_iff_iff]
  constructor
  · intro hhas
    obtain ⟨r, hr, hmatch⟩ := List.any_eq_true.mp hhas
    obtain ⟨hsid, hkey, -⟩ := of_decide_eq_true hmatch
    exact List.any_eq_true.mpr ⟨r, hr, decide_eq_true ⟨hsid, hkey⟩⟩
  · intro hholds
    obtain ⟨r, hr, hat⟩ := List.any_eq_true.mp hholds
    obtain ⟨hsid, hkey⟩ := of_decide_eq_true hat
    have hmem : r ∈ rowsOf (c.1, c.2) rows :=
      mem_rowsOf.mpr ⟨hr, Prod.ext hsid hkey⟩
    have hn : n ≠ 0 := by
      rintro rfl
      rw [List.map_eq_nil_iff.mp hversions] at hmem
      cases hmem
    rw [if_neg hn] at hlatest
    obtain ⟨r', hr', -⟩ := List.mem_map.mp
      (hlatest ▸ List.mem_singleton_self n)
    obtain ⟨hr', hflag⟩ := List.mem_filter.mp hr'
    obtain ⟨hr', hcell⟩ := mem_rowsOf.mp hr'
    obtain ⟨hsid', hkey'⟩ := Prod.mk.inj hcell
    exact List.any_eq_true.mpr
      ⟨r', hr', decide_eq_true ⟨hsid', hkey', hflag⟩⟩

/-- It has each version once. -/
theorem filter_one (h : VersionsChained cap rows c.1 c.2)
    {version : Option Nat} (hhas : hasVersion rows version c = true) :
    ∃ r, rows.filter (readMatches c.1 (.key c.2) version) = [r] := by
  have hne : rows.filter (readMatches c.1 (.key c.2) version) ≠ [] := by
    obtain ⟨r, hr, hmatch⟩ := List.any_eq_true.mp hhas
    exact List.ne_nil_of_mem (List.mem_filter.mpr ⟨hr, hmatch⟩)
  suffices hle : (rows.filter
      (readMatches c.1 (.key c.2) version)).length ≤ 1 by
    exact List.length_eq_one_iff.mp
      (le_antisymm hle (List.length_pos_iff.mpr hne))
  obtain ⟨n, -, hversions, hlatest, -⟩ := h
  rw [filter_readMatches]
  cases version with
  | none =>
      have hlen := congrArg List.length hlatest
      rw [List.length_map] at hlen
      refine hlen.trans_le ?_
      split <;> simp
  | some v =>
      -- the versions of a place are `1, …, n`
      have hcount := List.nodup_iff_count_le_one.mp
        (hversions ▸ List.nodup_range') v
      rw [List.count_eq_length_filter, List.filter_map,
        List.length_map] at hcount
      exact hcount

end Chains

end LegalBot
