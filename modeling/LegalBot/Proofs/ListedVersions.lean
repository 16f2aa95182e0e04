/-
What `ArtifactService.list` shows of the log.

The keys of a session stand in the order of the collation, each once
(`sessionKeys`). Under a key are all its versions, the last one first, or
the last one alone; a filter by kind leaves some of them out
(`listRows_eq`). Each row that is listed is the one that a read of its
key and version finds (`list_shows_log`). The tool `list_artifacts` reads
the same list.
-/
import LegalBot.Agents.ArtifactTools
import LegalBot.Artifacts.Listing
import LegalBot.Lib.Selection
import LegalBot.Proofs.ArtifactLog

namespace LegalBot

open VersionChain (Versioned mem_rowsOf rowsOf)

-- ====================================================================== keys

/-- The keys of a session, in order. -/
def sessionKeys (before : String → String → Prop) [DecidableRel before]
    (rows : List Artifact) (sid : Uuid) : List String :=
  (((rows.filter (·.sessionId = sid)).map (·.key)).dedup).insertionSort
    before

/-- What is listed of the rows of a key. -/
def listedOf (kind : Option String) (includeVersions : Bool)
    (rows : List Artifact) : List Artifact :=
  rows.reverse.filter fun r => wantsKind kind r
    ∧ (includeVersions ∨ r.isLatest)

section Order

variable {before : String → String → Prop} [DecidableRel before]
  {rows : List Artifact} {sid : Uuid} {k : String} {r r' r'' : Artifact}

theorem mem_sessionKeys :
    k ∈ sessionKeys before rows sid ↔ rowsOf (sid, k) rows ≠ [] := by
  unfold sessionKeys
  rw [List.mem_insertionSort, List.mem_dedup, List.mem_map]
  constructor
  · rintro ⟨r, hr, rfl⟩
    obtain ⟨hr, hsid⟩ := List.mem_filter.mp hr
    exact List.ne_nil_of_mem (mem_rowsOf.mpr
      ⟨hr, Prod.ext (of_decide_eq_true hsid) rfl⟩)
  · intro hne
    obtain ⟨r, hr⟩ := List.exists_mem_of_ne_nil _ hne
    obtain ⟨hr, hcell⟩ := mem_rowsOf.mp hr
    obtain ⟨hsid, hkey⟩ := Prod.mk.inj hcell
    exact ⟨r, List.mem_filter.mpr ⟨hr, decide_eq_true hsid⟩, hkey⟩

theorem sessionKeys_pairwise [Std.Total before] [IsTrans String before] :
    (sessionKeys before rows sid).Pairwise
      fun k k' => k ≠ k' ∧ before k k' := by
  refine List.Pairwise.and ?_ (List.pairwise_insertionSort before _)
  exact (List.perm_insertionSort before _).nodup_iff.mpr
    (List.nodup_dedup _)

omit [DecidableRel before] in
theorem listedBefore_of_ne (h : r.key ≠ r'.key) :
    ListedBefore before r r' ↔ before r.key r'.key := by
  unfold ListedBefore
  rw [if_neg h]

omit [DecidableRel before] in
theorem listedBefore_of_eq (h : r.key = r'.key) :
    ListedBefore before r r' ↔ r'.version ≤ r.version := by
  unfold ListedBefore
  rw [if_pos h]

instance [Std.Total before] : Std.Total (ListedBefore before) where
  total r r' := by
    by_cases h : r.key = r'.key
    · rw [listedBefore_of_eq h, listedBefore_of_eq h.symm]
      exact Nat.le_total _ _
    · rw [listedBefore_of_ne h, listedBefore_of_ne (Ne.symm h)]
      exact Std.Total.total _ _

instance [IsTrans String before] [Std.Antisymm before] :
    IsTrans Artifact (ListedBefore before) where
  trans r r' r'' h h' := by
    by_cases hkey : r.key = r'.key
    · by_cases hkey' : r'.key = r''.key
      · rw [listedBefore_of_eq hkey] at h
        rw [listedBefore_of_eq hkey'] at h'
        rw [listedBefore_of_eq (hkey.trans hkey')]
        exact h'.trans h
      · rw [listedBefore_of_ne hkey'] at h'
        rw [listedBefore_of_ne (hkey ▸ hkey'), hkey]
        exact h'
    · rw [listedBefore_of_ne hkey] at h
      by_cases hkey' : r'.key = r''.key
      · rw [listedBefore_of_ne (hkey' ▸ hkey), ← hkey']
        exact h
      · rw [listedBefore_of_ne hkey'] at h'
        -- going back to the same key would make the one between equal
        by_cases hback : r.key = r''.key
        · rw [← hback] at h'
          exact absurd (Std.Antisymm.antisymm _ _ h h') hkey
        · rw [listedBefore_of_ne hback]
          exact IsTrans.trans _ _ _ h h'

end Order

-- ====================================================================== list

section Listing

variable {n : Nat} {rt : Runtime} {svc : ArtifactService}
  {s : ArtifactState n} {before : String → String → Prop}
  [DecidableRel before] {sid : Uuid} {kind : Option String}
  {includeVersions : Bool} {k : String}

theorem mem_listedOf {rows : List Artifact} {r : Artifact} :
    r ∈ listedOf kind includeVersions rows ↔ r ∈ rows
      ∧ wantsKind kind r = true
      ∧ (includeVersions = true ∨ r.isLatest = true) := by
  unfold listedOf
  simp

/-- A row of a chain is known by its version. -/
theorem eq_of_version {l : List Artifact}
    (h : VersionChain.Linked l) {r r' : Artifact} (hr : r ∈ l)
    (hr' : r' ∈ l) (hversion : r.version = r'.version) : r = r' := by
  obtain ⟨v, hv⟩ : ∃ v, r.version = v + 1 :=
    ⟨r.version - 1, (Nat.sub_add_cancel (h.version_le hr).1).symm⟩
  have hat : ∀ x ∈ l, x.version = v + 1 → l[v]? = some x := by
    intro x hx hxv
    have hmem : x ∈ l.filter (fun x => Versioned.version x = v + 1) :=
      List.mem_filter.mpr ⟨hx, decide_eq_true hxv⟩
    rw [h.filter_version] at hmem
    exact Option.mem_toList.mp hmem
  have hsame := (hat r hr hv).symm.trans (hat r' hr' (hversion ▸ hv))
  exact Option.some.inj hsame

/-- Versions go down in what is listed of a chain. -/
theorem listedOf_descending {l : List Artifact}
    (h : VersionChain.Linked l) :
    (listedOf kind includeVersions l).Pairwise
      fun r r' => r'.version < r.version := by
  have hversions : (l.map Versioned.version).Pairwise (· < ·) := by
    rw [h.versions]
    exact List.pairwise_lt_range'
  have hup : l.Pairwise fun r r' => r.version < r'.version :=
    List.pairwise_map.mp hversions
  exact (List.pairwise_reverse.mpr hup).sublist List.filter_sublist

/-- The rows in the order they are listed in. -/
theorem listRows_eq [Std.Total before] [IsTrans String before]
    [Std.Antisymm before] (h : ArtifactReaches rt svc Lts.Always s) :
    listRows before s.committed sid kind includeVersions
      = (sessionKeys before s.committed sid).flatMap fun k =>
        listedOf kind includeVersions (rowsOf (sid, k) s.committed) := by
  have hdrafts := (reaches_chained h).drafts
  have hlinked : ∀ k, VersionChain.Linked (rowsOf (sid, k) s.committed) :=
    fun k => (hdrafts.committed (sid, k)).linked
  have hkey : ∀ k, ∀ r ∈ listedOf kind includeVersions
      (rowsOf (sid, k) s.committed), r.key = k := fun k r hr =>
    (Prod.mk.inj (mem_rowsOf.mp (mem_listedOf.mp hr).1).2).2
  have hmem : ∀ r, r ∈ s.committed.filter
        (listMatches sid kind includeVersions)
      ↔ r ∈ s.committed ∧ r.sessionId = sid ∧ wantsKind kind r = true
        ∧ (includeVersions = true ∨ r.isLatest = true) := by
    intro r
    unfold listMatches
    rw [List.mem_filter, decide_eq_true_eq]
  have hanti : ∀ r ∈ s.committed.filter
        (listMatches sid kind includeVersions), ∀ r' ∈ s.committed.filter
        (listMatches sid kind includeVersions),
      ListedBefore before r r' → ListedBefore before r' r → r = r' := by
    intro r hr r' hr' hle hle'
    by_cases hsame : r.key = r'.key
    · rw [listedBefore_of_eq hsame] at hle
      rw [listedBefore_of_eq hsame.symm] at hle'
      obtain ⟨hr, hsid, -⟩ := (hmem r).mp hr
      obtain ⟨hr', hsid', -⟩ := (hmem r').mp hr'
      exact eq_of_version (hlinked r.key)
        (mem_rowsOf.mpr ⟨hr, Prod.ext hsid rfl⟩)
        (mem_rowsOf.mpr ⟨hr', Prod.ext hsid' hsame.symm⟩)
        (Nat.le_antisymm hle' hle)
    · rw [listedBefore_of_ne hsame] at hle
      rw [listedBefore_of_ne (Ne.symm hsame)] at hle'
      exact absurd (Std.Antisymm.antisymm _ _ hle hle') hsame
  have hkeys : (sessionKeys before s.committed sid).Pairwise fun k k' =>
      k ≠ k' ∧ ∀ r ∈ listedOf kind includeVersions
          (rowsOf (sid, k) s.committed),
        ∀ r' ∈ listedOf kind includeVersions (rowsOf (sid, k') s.committed),
          ListedBefore before r r' := by
    refine sessionKeys_pairwise.imp fun {k k'} hlt =>
      ⟨hlt.1, fun r hr r' hr' => ?_⟩
    have hne : r.key ≠ r'.key := by
      rw [hkey k r hr, hkey k' r' hr']
      exact hlt.1
    rw [listedBefore_of_ne hne, hkey k r hr, hkey k' r' hr']
    exact hlt.2
  have hgroup : ∀ k ∈ sessionKeys before s.committed sid,
      (listedOf kind includeVersions (rowsOf (sid, k) s.committed)).Nodup
        ∧ (listedOf kind includeVersions
          (rowsOf (sid, k) s.committed)).Pairwise
            (ListedBefore before) := by
    intro k _
    have hdown : (listedOf kind includeVersions
        (rowsOf (sid, k) s.committed)).Pairwise
          fun r r' => r'.version < r.version :=
      listedOf_descending (hlinked k)
    refine ⟨hdown.imp fun hlt heq => ?_,
      hdown.imp_of_mem fun {r r'} hr hr' hlt => ?_⟩
    · rw [heq] at hlt
      exact Nat.lt_irrefl _ hlt
    · rw [listedBefore_of_eq ((hkey k r hr).trans (hkey k r' hr').symm)]
      exact Nat.le_of_lt hlt
  refine Selection.insertionSort_groups (hdrafts.committedIds.of_map.filter _)
    hanti hkeys hgroup hkey fun r => ?_
  rw [hmem]
  constructor
  · rintro ⟨hr, hsid, hrest⟩
    have hat : r ∈ rowsOf (sid, r.key) s.committed :=
      mem_rowsOf.mpr ⟨hr, Prod.ext hsid rfl⟩
    exact ⟨r.key, mem_sessionKeys.mpr (List.ne_nil_of_mem hat),
      mem_listedOf.mpr ⟨hat, hrest⟩⟩
  · rintro ⟨k, -, hr⟩
    obtain ⟨hat, hrest⟩ := mem_listedOf.mp hr
    obtain ⟨hr, hcell⟩ := mem_rowsOf.mp hat
    exact ⟨hr, (Prod.mk.inj hcell).1, hrest⟩

end Listing

-- ======================================================================= log

/-- What is listed of the entries of a key. -/
def listedEntries (kind : Option String) (includeVersions : Bool)
    (entries : List LogEntry) : List LogEntry :=
  (if includeVersions then entries.reverse
    else entries.getLast?.toList).filter fun entry => wantsKind kind entry.1

section Log

variable {n : Nat} {rt : Runtime} {svc : ArtifactService}
  {s : ArtifactState n} {blobs : Blobs} {kind : Option String}
  {includeVersions : Bool} {l : List Artifact}

theorem wantsKind_entryOf {r : Artifact} :
    wantsKind kind (entryOf rt blobs r).1 = wantsKind kind r := rfl

/-- The flag leaves the last version. -/
theorem map_listedOf (h : VersionChain.IsChain l) :
    (listedOf kind includeVersions l).map (entryOf rt blobs)
      = listedEntries kind includeVersions (l.map (entryOf rt blobs)) := by
  have hlatest : l.reverse.filter (fun r => r.isLatest)
      = l.getLast?.toList := by
    have hflagged : l.filter (fun r => r.isLatest)
        = l.getLast?.toList := h.flagged
    rw [List.filter_reverse, hflagged]
    cases l.getLast? with
    | none => rfl
    | some r => rfl
  have hfilter : ∀ m : List Artifact,
      (m.filter (wantsKind kind)).map (entryOf rt blobs)
        = (m.map (entryOf rt blobs)).filter
          fun entry => wantsKind kind entry.1 := by
    intro m
    rw [List.filter_map]
    rfl
  unfold listedOf listedEntries
  cases includeVersions with
  | true =>
      rw [if_pos rfl, ← List.map_reverse, ← hfilter]
      congr 1
      refine List.filter_congr fun r _ => ?_
      simp
  | false =>
      have hone : (l.map (entryOf rt blobs)).getLast?.toList
          = l.getLast?.toList.map (entryOf rt blobs) := by
        rw [List.getLast?_map]
        cases l.getLast? with
        | none => rfl
        | some r => rfl
      rw [if_neg Bool.false_ne_true, hone, ← hfilter, ← hlatest,
        List.filter_filter]
      congr 1
      refine List.filter_congr fun r _ => ?_
      simp

/-- A row that is listed is what a read of its key and version finds. -/
theorem read_listed (h : ArtifactReaches rt svc Lts.Always s)
    {r : Artifact} (hr : r ∈ s.committed) :
    read rt s.committed s.blobs r.sessionId (.key r.key)
        (some r.version)
      = (resolvePayload rt s.blobs r).map fun content => (r, content) := by
  refine read_one ?_
  have hlinked := ((reaches_chained h).drafts.committed
    (r.sessionId, r.key)).linked
  have hat : r ∈ rowsOf (r.sessionId, r.key) s.committed :=
    mem_rowsOf.mpr ⟨hr, rfl⟩
  have hversions := hlinked.version_le hat
  have hfilter := hlinked.filter_version (r.version - 1)
  have hv : r.version - 1 + 1 = r.version :=
    Nat.sub_add_cancel hversions.1
  rw [hv] at hfilter
  have hmem : r ∈ (rowsOf (r.sessionId, r.key) s.committed).filter
      (fun x => Versioned.version x = r.version) :=
    List.mem_filter.mpr ⟨hat, decide_eq_true rfl⟩
  rw [filter_readMatches (c := (r.sessionId, r.key))]
  show (rowsOf (r.sessionId, r.key) s.committed).filter
    (fun x => Versioned.version x = r.version) = [r]
  rw [hfilter] at hmem ⊢
  rw [Option.mem_toList.mp hmem]
  rfl

/-- The tool `list_artifacts` reads the same rows in the same order. -/
theorem listArtifacts_eq (h : ArtifactReaches rt svc Lts.Always s)
    (sid : Uuid) :
    Tools.listArtifacts s.committed sid
      = listRows (· ≤ ·) s.committed sid none false := by
  have hfilter : s.committed.filter (listMatches sid none false)
      = s.committed.filter fun r => r.sessionId = sid ∧ r.isLatest := by
    refine List.filter_congr fun r _ => ?_
    unfold listMatches wantsKind
    simp
  unfold Tools.listArtifacts listRows
  rw [hfilter]
  have hperm := List.perm_insertionSort
    (fun r r' : Artifact => r.key ≤ r'.key)
    (s.committed.filter fun r => r.sessionId = sid ∧ r.isLatest)
  have hperm' := List.perm_insertionSort (ListedBefore (· ≤ ·))
    (s.committed.filter fun r => r.sessionId = sid ∧ r.isLatest)
  have hsorted : ((s.committed.filter fun r => r.sessionId = sid
      ∧ r.isLatest).insertionSort (ListedBefore (· ≤ ·))).Pairwise
        fun r r' => r.key ≤ r'.key := by
    refine (List.pairwise_insertionSort _ _).imp fun {r r'} hle => ?_
    by_cases hkey : r.key = r'.key
    · exact hkey ▸ String.le_refl _
    · exact (listedBefore_of_ne hkey).mp hle
  refine (hperm.trans hperm'.symm).eq_of_pairwise
    (fun r r' hr hr' hle hle' => ?_)
    (List.pairwise_insertionSort _ _) hsorted
  -- a key has one latest row
  obtain ⟨hrow, hat⟩ := List.mem_filter.mp (hperm.mem_iff.mp hr)
  obtain ⟨hrow', hat'⟩ := List.mem_filter.mp (hperm'.mem_iff.mp hr')
  obtain ⟨rfl, hlatest⟩ := of_decide_eq_true hat
  obtain ⟨hsid, hlatest'⟩ := of_decide_eq_true hat'
  have hkey : r'.key = r.key := String.le_antisymm hle' hle
  have hflagged := ((reaches_chained h).drafts.committed
    (r.sessionId, r.key)).flagged
  have hone : ∀ x ∈ rowsOf (r.sessionId, r.key) s.committed,
      x.isLatest = true →
      (rowsOf (r.sessionId, r.key) s.committed).getLast? = some x := by
    intro x hx hflag
    have hmem : x ∈ (rowsOf (r.sessionId, r.key) s.committed).filter
        (fun x => Versioned.latest x) := List.mem_filter.mpr ⟨hx, hflag⟩
    rw [hflagged] at hmem
    exact Option.mem_toList.mp hmem
  have hlast := hone r (mem_rowsOf.mpr ⟨hrow, rfl⟩) hlatest
  have hlast' := hone r' (mem_rowsOf.mpr ⟨hrow', Prod.ext hsid hkey⟩)
    hlatest'
  exact Option.some.inj (hlast.symm.trans hlast')

end Log

/-- `list` is the log of the session: its keys in order, under each the
versions from the last to the first, or the last alone. -/
theorem list_shows_log {n : Nat} {rt : Runtime} {svc : ArtifactService}
    {s : ArtifactState n} {before : String → String → Prop}
    [DecidableRel before] [Std.Total before] [IsTrans String before]
    [Std.Antisymm before] (h : ArtifactReaches rt svc Lts.Always s)
    (sid : Uuid) (kind : Option String) (includeVersions : Bool) :
    ((sessionKeys before s.committed sid).Pairwise
        fun k k' => k ≠ k' ∧ before k k')
      ∧ (∀ k, k ∈ sessionKeys before s.committed sid
        ↔ (logOf rt s).published (sid, k) ≠ [])
      ∧ (listRows before s.committed sid kind includeVersions).map
          (entryOf rt s.blobs)
        = ((sessionKeys before s.committed sid).flatMap fun k =>
          listedEntries kind includeVersions
            ((logOf rt s).published (sid, k)))
      ∧ ∀ r ∈ listRows before s.committed sid kind includeVersions,
        read rt s.committed s.blobs sid (.key r.key) (some r.version)
          = (resolvePayload rt s.blobs r).map
            fun content => (r, content) := by
  refine ⟨sessionKeys_pairwise, fun k => ?_, ?_, fun r hr => ?_⟩
  · rw [mem_sessionKeys]
    exact not_congr List.map_eq_nil_iff.symm
  · rw [listRows_eq h, List.map_flatMap]
    congr 1
    funext k
    exact map_listedOf ((reaches_chained h).drafts.committed (sid, k))
  · obtain ⟨hcommitted, hmatch⟩ := List.mem_filter.mp
      ((List.mem_insertionSort _).mp hr)
    obtain ⟨hsid, -⟩ := of_decide_eq_true hmatch
    rw [← hsid]
    exact read_listed h hcommitted

/-- Two versions of one key. -/
theorem racing_writes_listed :
    ∃ s : ArtifactState 2,
      (listRows (· ≤ ·) s.committed 10 none true).map
          (entryOf Runtime.sample s.blobs)
        = ((sessionKeys (· ≤ ·) s.committed 10).flatMap fun k =>
          listedEntries none true
            ((logOf Runtime.sample s).published (10, k)))
      ∧ (listRows (· ≤ ·) s.committed 10 none true).map (·.version)
        = [2, 1] := by
  have hrun : (Lts.run (ArtifactState.step Runtime.sample
      ArtifactService.default) (.init 2) racingWrites).map
      (fun s => (listRows (· ≤ ·) s.committed 10 none true).map (·.version))
      = some [2, 1] := by
    decide +kernel
  obtain ⟨s, hs, hversions⟩ := Option.map_eq_some_iff.mp hrun
  exact ⟨s, (list_shows_log (Lts.reachable_of_run .init hs) 10 none
    true).2.2.1, hversions⟩

end LegalBot
