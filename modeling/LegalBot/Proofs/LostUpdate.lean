/-
What concurrent `json_merge_patch` updates leave in a version.

# The window

`update` reads the content it patches in its first statement and takes
its version in a later one. A commit of the same key between the two is
not noticed: the version is next to the new row, and nothing the insert
checks says which row the content came from. `FreshMerge` asks that the
row the update read is still the latest when it takes its version.

# After the window

From there on the unique index on the version does the rest: a further
commit takes the version, so an insert that goes through supersedes the
row that was latest when the version was taken (`NextAfter`). A committed
merge then holds its patch merged into the content of the version before
it (`MergesApplied`), and the content of the latest version is the fold
of all patches (`LatestReflects`).
-/
import LegalBot.Proofs.ArtifactVersions
import LegalBot.Proofs.LoneWrites

namespace LegalBot

open VersionChain (Carries Draft Drafts IsChain Versioned demoteIn lastId
  mem_rowsOf rowsOf)

-- ============================================================== statements

/-- What the last of the given versions is read as; before the first one
an update starts from `{}`. -/
def currentContent (rt : Runtime) (blobs : Blobs) (l : List Artifact) :
    Except ArtifactError Content :=
  match l.getLast? with
  | none => .ok (.value (.obj []))
  | some row => resolvePayload rt blobs row

section Statements

variable {n : Nat}

/-- A version that a merge produced holds the patch merged into the
content of the version it supersedes, and the first one the patch merged
into `{}`. -/
def MergesApplied (rt : Runtime) (s : ArtifactState n) : Prop :=
  ∀ r ∈ s.committed, ∀ o, (r.id, o) ∈ s.origins →
    ∃ content v, mergeContent content o.patch = .value v
      ∧ r.mime = "application/json" ∧ Holds rt s.blobs r (.value v)
      ∧ ((r.version = 1 ∧ r.supersedesArtifactId = none
          ∧ content = .value (.obj []))
        ∨ ∃ prev ∈ s.committed, r.supersedesArtifactId = some prev.id
          ∧ prev.sessionId = r.sessionId ∧ prev.key = r.key
          ∧ r.version = prev.version + 1
          ∧ resolvePayload rt s.blobs prev = .ok content)

/-- After versions `pre` of a key, merges only: the latest content is
what their patches, folded in order, make of the content before, if
`json.loads` gives back each content on the way. -/
def LatestReflects (rt : Runtime) (s : ArtifactState n) (sid : Uuid)
    (key : String) : Prop :=
  ∀ pre merged os base,
    rowsOf (sid, key) s.committed = pre ++ merged →
    List.Forall₂ (fun r o => (r.id, o) ∈ s.origins) merged os →
    currentContent rt s.blobs pre = .ok base →
    (∀ done v, done ≠ [] → done <+: os →
      done.foldl (fun content o => mergeContent content o.patch) base
        = .value v → LoadsBack rt v) →
    currentContent rt s.blobs (pre ++ merged)
      = .ok (os.foldl (fun content o => mergeContent content o.patch) base)

/-- When a merge takes its version, the latest row of its key that its
transaction sees is the one it read. -/
def FreshMerge (a : ArtifactAction n) (s : ArtifactState n) : Prop :=
  match a with
  | .statement t _ =>
      match (s.txs t).point with
      | .nextVersion args (some o) =>
          selectLatest ((s.txs t).view s.committed) args.sessionId args.key
            = .ok o.source
      | _ => True
  | _ => True

instance (a : ArtifactAction n) (s : ArtifactState n) :
    Decidable (FreshMerge a s) := by
  unfold FreshMerge
  split
  · split <;> infer_instance
  · infer_instance

end Statements

-- =============================================================== knowledge

/-- The content a merge started from is that of its source. -/
def SourceRead (rt : Runtime) (blobs : Blobs) (rows : List Artifact)
    (o : Origin) : Prop :=
  match o.source with
  | none => o.previous = .value (.obj [])
  | some q => ∃ x ∈ rows, x.id = q
      ∧ resolvePayload rt blobs x = .ok o.previous

/-- The arguments of a write that a merge ends in. -/
structure MergeOf (rt : Runtime) (blobs : Blobs) (rows : List Artifact)
    (a : WriteArgs) (o : Origin) : Prop where
  content : a.content = mergeContent o.previous o.patch
  mime : a.mime = "application/json"
  read : SourceRead rt blobs rows o

/-- As long as the version is next, the source is the last row. -/
def NextAfter (rows : List Artifact) (a : WriteArgs) (o : Origin)
    (version : Nat) : Prop :=
  version = (rowsOf (a.sessionId, a.key) rows).length + 1 →
    lastId (rowsOf (a.sessionId, a.key) rows) = o.source

/-- A merge past its version statement. -/
structure Versioning (rt : Runtime) (blobs : Blobs) (rows : List Artifact)
    (a : WriteArgs) (o : Origin) (version : Nat) : Prop
    extends MergeOf rt blobs rows a o where
  next : NextAfter rows a o version

/-- What a write with a stored payload knows. -/
def Stored (rt : Runtime) (svc : ArtifactService) (blobs : Blobs)
    (rows : List Artifact) (w : PendingWrite) : Prop :=
  ∀ o, w.origin = some o → Versioning rt blobs rows w.args o w.version
    ∧ payloadOf rt svc w.args = .ok w.payload
    ∧ Placed blobs w.args w.id w.payload

/-- What a transaction in the middle of a merge still knows. -/
def MergeKnows (rt : Runtime) (svc : ArtifactService) (blobs : Blobs)
    (rows : List Artifact) : WritePoint → Prop
  | .nextVersion a origin =>
      ∀ o, origin = some o → MergeOf rt blobs rows a o
  | .storePayload a origin version =>
      ∀ o, origin = some o → Versioning rt blobs rows a o version
  | .selectLatest w | .demote w _ | .insert w _ =>
      Stored rt svc blobs rows w
  | _ => True

/-- The row under `id` was merged as `o` records. -/
def Attributed (rt : Runtime) (blobs : Blobs) (rows : List Artifact)
    (id : Uuid) (o : Origin) : Prop :=
  SourceRead rt blobs rows o ∧ ∃ r ∈ rows, r.id = id
    ∧ r.supersedesArtifactId = o.source ∧ r.mime = "application/json"
    ∧ Holds rt blobs r (mergeContent o.previous o.patch)

/-- Every recorded merge is there as recorded, for those who see it. -/
structure Merged {n : Nat} (rt : Runtime) (svc : ArtifactService)
    (s : ArtifactState n) : Prop where
  committed : ∀ id o, (id, o) ∈ s.origins →
    Attributed rt s.blobs s.committed id o
  drafted : ∀ t id o, (id, o) ∈ (s.txs t).origins →
    Attributed rt s.blobs ((s.txs t).draft.on s.committed) id o
  points : ∀ t, MergeKnows rt svc s.blobs
    ((s.txs t).draft.on s.committed) (s.txs t).point

section Knowledge

variable {rt : Runtime} {svc : ArtifactService} {blobs blobs' : Blobs}
  {rows rows' : List Artifact} {a : WriteArgs} {o : Origin}

theorem SourceRead.mono (hcarries : Carries rows rows')
    (hgrow : BlobsGrow blobs blobs') (h : SourceRead rt blobs rows o) :
    SourceRead rt blobs' rows' o := by
  unfold SourceRead at h ⊢
  cases hsource : o.source with
  | none =>
      rw [hsource] at h
      exact h
  | some q =>
      rw [hsource] at h
      obtain ⟨x, hx, hid, hread⟩ := h
      obtain ⟨x', hx', heq⟩ := hcarries x hx
      refine ⟨x', hx', (congrArg Artifact.id heq).trans hid, ?_⟩
      rw [← resolvePayload_demote, heq, resolvePayload_demote]
      exact resolvePayload_grow hgrow hread

theorem MergeOf.mono (hcarries : Carries rows rows')
    (hgrow : BlobsGrow blobs blobs') (h : MergeOf rt blobs rows a o) :
    MergeOf rt blobs' rows' a o :=
  ⟨h.content, h.mime, h.read.mono hcarries hgrow⟩

/-- A version that was next and still is has the same row before it. -/
theorem NextAfter.mono {version : Nat}
    (hids : (rowsOf (a.sessionId, a.key) rows).map Artifact.id
      <+: (rowsOf (a.sessionId, a.key) rows').map Artifact.id)
    (hle : version ≤ (rowsOf (a.sessionId, a.key) rows).length + 1)
    (h : NextAfter rows a o version) : NextAfter rows' a o version := by
  intro hnext
  have hlen := hids.length_le
  rw [List.length_map, List.length_map] at hlen
  have hsame : (rowsOf (a.sessionId, a.key) rows).map Artifact.id
      = (rowsOf (a.sessionId, a.key) rows').map Artifact.id := by
    refine hids.eq_of_length ?_
    rw [List.length_map, List.length_map]
    omega
  have hlast : lastId (rowsOf (a.sessionId, a.key) rows')
      = lastId (rowsOf (a.sessionId, a.key) rows) := by
    unfold lastId
    rw [← List.getLast?_map, ← List.getLast?_map]
    exact congrArg List.getLast? hsame.symm
  rw [hlast]
  exact h (by omega)

/-- What a merge knows survives the steps of others. -/
theorem MergeKnows.mono {cap : Nat} {p : WritePoint}
    (hcarries : Carries rows rows') (hgrow : BlobsGrow blobs blobs')
    (hids : ∀ sid key, (rowsOf (sid, key) rows).map Artifact.id
      <+: (rowsOf (sid, key) rows').map Artifact.id)
    (hknows : Knows cap
      (fun sid key => (rowsOf (sid, key) rows).map Artifact.id) p)
    (h : MergeKnows rt svc blobs rows p) :
    MergeKnows rt svc blobs' rows' p := by
  have hversioning : ∀ {a : WriteArgs} {o : Origin} {version : Nat},
      VersionKnown cap
        (fun sid key => (rowsOf (sid, key) rows).map Artifact.id) a version →
      Versioning rt blobs rows a o version →
      Versioning rt blobs' rows' a o version := by
    intro a o version hknown hv
    obtain ⟨-, hle, -⟩ := hknown
    simp only [List.length_map] at hle
    exact ⟨hv.toMergeOf.mono hcarries hgrow,
      hv.next.mono (hids a.sessionId a.key) hle⟩
  have hstored : ∀ {w : PendingWrite}, VersionKnown cap
      (fun sid key => (rowsOf (sid, key) rows).map Artifact.id) w.args
        w.version →
      Stored rt svc blobs rows w → Stored rt svc blobs' rows' w := by
    intro w hknown hw o ho
    obtain ⟨hv, hpayload, hplaced⟩ := hw o ho
    exact ⟨hversioning hknown hv, hpayload, hplaced.grow hgrow⟩
  cases p with
  | nextVersion a origin =>
      intro o ho
      exact (h o ho).mono hcarries hgrow
  | storePayload a origin version =>
      intro o ho
      exact hversioning hknows (h o ho)
  | selectLatest w => exact hstored hknows h
  | demote w prior => exact hstored hknows.1 h
  | insert w prior => exact hstored hknows.1 h
  | _ => trivial

theorem Attributed.mono {id : Uuid} (hcarries : Carries rows rows')
    (hgrow : BlobsGrow blobs blobs') (h : Attributed rt blobs rows id o) :
    Attributed rt blobs' rows' id o := by
  obtain ⟨hread, r, hr, hid, hprior, hmime, hholds⟩ := h
  obtain ⟨r', hr', heq⟩ := hcarries r hr
  refine ⟨hread.mono hcarries hgrow, r', hr',
    (congrArg Artifact.id heq).trans hid,
    (congrArg Artifact.supersedesArtifactId heq).trans hprior,
    (congrArg Artifact.mime heq).trans hmime, ?_⟩
  rw [← holds_demote, heq, holds_demote]
  exact hholds.grow hgrow

end Knowledge

-- =================================================================== steps

/-- What a merge hands to its write. -/
theorem mergeOf_updateFrom {rt : Runtime} {u : UpdateArgs}
    {rows : List Artifact} {blobs : Blobs} {a : WriteArgs}
    {row : Option Artifact} {previous : Content} {o : Origin}
    (h : updateFrom rt u (read rt rows blobs u.sessionId (.key u.key) none)
      = .ok (a, row, previous))
    (ho : u.originOf row previous = some o) :
    MergeOf rt blobs rows a o := by
  unfold UpdateArgs.originOf at ho
  cases hmerge : u.merge with
  | replace =>
      rw [hmerge] at ho
      cases ho
  | jsonPatch =>
      rw [hmerge] at ho
      cases ho
  | jsonMergePatch =>
      rw [hmerge] at ho
      injection ho with ho
      unfold updateFrom at h
      rw [hmerge] at h
      cases hread : read rt rows blobs u.sessionId (.key u.key) none with
      | ok found =>
          obtain ⟨row', previous'⟩ := found
          rw [hread] at h
          simp only at h
          split at h
          · cases h
          · rename_i hmime
            simp only [Except.ok.injEq, Prod.mk.injEq] at h
            obtain ⟨rfl, rfl, rfl⟩ := h
            subst ho
            obtain ⟨hone, hpayload⟩ := read_ok hread
            have hmem : row' ∈ rows.filter
                (readMatches u.sessionId (.key u.key) none) := by
              rw [hone]
              exact List.mem_singleton_self _
            exact ⟨rfl, not_not.mp hmime, row', (List.mem_filter.mp hmem).1,
              rfl, hpayload⟩
      | error e =>
          rw [hread] at h
          simp only at h
          split at h
          · split at h
            · cases h
            · rename_i hmime
              simp only [Except.ok.injEq, Prod.mk.injEq] at h
              obtain ⟨rfl, rfl, rfl⟩ := h
              subst ho
              exact ⟨rfl, not_not.mp hmime, rfl⟩
          · cases h

section Steps

variable {n : Nat} {rt : Runtime} {svc : ArtifactService}
  {s s' : ArtifactState n} {t : Fin n} {id : Uuid}

/-- A statement replaces no blob and hands on what a merge has to
know. -/
theorem statement_merges (hc : Chained svc.versionCap s)
    (h : Merged rt svc s) (hfresh : FreshMerge (.statement t id) s)
    {p : WritePoint} {blobs : Blobs}
    (hs : s.statement rt svc t id = some (.goes p blobs)) :
    BlobsGrow s.blobs blobs ∧
      MergeKnows rt svc blobs ((s.txs t).draft.on s.committed) p := by
  have hpoints := h.points t
  have hsame : BlobsGrow s.blobs s.blobs := fun _ _ href => href
  unfold ArtifactState.statement at hs
  simp only at hs
  cases hpoint : (s.txs t).point with
  | idle =>
      rw [hpoint] at hs
      cases hs
  | readContent u =>
      have hview : (s.txs t).view s.committed
          = (s.txs t).draft.on s.committed :=
        view_of_not_demoted (by rw [hpoint]; rfl)
      rw [hpoint, hview] at hs
      simp only at hs
      split at hs
      · rename_i a row previous hupdate
        injection hs with hs
        injection hs with hp hblobs
        subst hp hblobs
        exact ⟨hsame, fun o ho => mergeOf_updateFrom hupdate ho⟩
      · cases hs
  | nextVersion a origin =>
      have hview : (s.txs t).view s.committed
          = (s.txs t).draft.on s.committed :=
        view_of_not_demoted (by rw [hpoint]; rfl)
      unfold FreshMerge at hfresh
      rw [hpoint] at hs hpoints
      simp only [hpoint] at hfresh
      simp only at hs
      split at hs
      · cases hs
      · injection hs with hs
        injection hs with hp hblobs
        subst hp hblobs
        refine ⟨hsame, fun o ho => ⟨hpoints o ho, fun _ => ?_⟩⟩
        -- the guard, on the chain the transaction sees
        subst ho
        simp only [hview] at hfresh
        rw [selectLatest_of_isChain (hc.drafts.chains t _)] at hfresh
        injection hfresh
  | storePayload a origin version =>
      rw [hpoint] at hs hpoints
      simp only at hs
      split at hs
      · cases hs
      · rename_i payload hpayload
        split at hs
        · cases hs
        · rename_i hexists
          injection hs with hs
          injection hs with hp hblobs
          subst hp hblobs
          have hgrow : BlobsGrow s.blobs
              (putPayload s.blobs a id payload) := by
            refine putPayload_grow fun hblob => ?_
            by_contra hsome
            exact hexists ⟨hblob, Option.isSome_iff_ne_none.mpr hsome⟩
          refine ⟨hgrow, fun o ho => ⟨?_, hpayload, placed_putPayload⟩⟩
          have hv := hpoints o ho
          exact ⟨hv.toMergeOf.mono Carries.refl hgrow, hv.next⟩
  | selectLatest w =>
      rw [hpoint] at hs hpoints
      simp only at hs
      split at hs
      · injection hs with hs
        injection hs with hp hblobs
        subst hp hblobs
        exact ⟨hsame, hpoints⟩
      · injection hs with hs
        injection hs with hp hblobs
        subst hp hblobs
        exact ⟨hsame, hpoints⟩
      · cases hs
  | demote w prior =>
      rw [hpoint] at hs hpoints
      simp only at hs
      split at hs
      · cases hs
      · injection hs with hs
        injection hs with hp hblobs
        subst hp hblobs
        exact ⟨hsame, hpoints⟩
  | insert w prior =>
      rw [hpoint] at hs
      simp only at hs
      split at hs
      · cases hs
      · split at hs
        · cases hs
        · cases hs

theorem Merged.goes (hc : Chained svc.versionCap s) (h : Merged rt svc s)
    {p : WritePoint} {blobs : Blobs} (hgrow : BlobsGrow s.blobs blobs)
    (hp : MergeKnows rt svc blobs ((s.txs t).draft.on s.committed) p) :
    Merged rt svc (s.after t (.goes p blobs)) := by
  refine ⟨fun i o ho => (h.committed i o ho).mono Carries.refl hgrow,
    fun t' i o ho => ?_, fun t' => ?_⟩
  · by_cases ht : t' = t
    · subst ht
      simp only [ArtifactState.after, Function.update_self] at ho ⊢
      exact (h.drafted t' i o ho).mono Carries.refl hgrow
    · simp only [ArtifactState.after, Function.update_of_ne ht] at ho ⊢
      exact (h.drafted t' i o ho).mono Carries.refl hgrow
  · by_cases ht : t' = t
    · subst ht
      simp only [ArtifactState.after, Function.update_self]
      exact hp
    · simp only [ArtifactState.after, Function.update_of_ne ht]
      exact (h.points t').mono Carries.refl hgrow
        (fun _ _ => List.prefix_refl _) (hc.knows t')

theorem Merged.rollback (h : Merged rt svc s) :
    Merged rt svc (s.rollback t) := by
  refine ⟨h.committed, fun t' i o ho => ?_, fun t' => ?_⟩
  · by_cases ht : t' = t
    · subst ht
      simp only [ArtifactState.rollback, Function.update_self] at ho
      cases ho
    · simp only [ArtifactState.rollback, Function.update_of_ne ht] at ho ⊢
      exact h.drafted t' i o ho
  · by_cases ht : t' = t
    · subst ht
      simp only [ArtifactState.rollback, Function.update_self]
      trivial
    · simp only [ArtifactState.rollback, Function.update_of_ne ht]
      exact h.points t'

theorem Merged.commit (hc : Chained svc.versionCap s)
    (h : Merged rt svc s) : Merged rt svc (s.commit t) := by
  have hgrow : BlobsGrow s.blobs s.blobs := fun _ _ href => href
  refine ⟨fun i o ho => ?_, fun t' i o ho => ?_, fun t' => ?_⟩
  · rcases List.mem_append.mp ho with ho | ho
    · exact (h.committed i o ho).mono Draft.carries_on hgrow
    · exact h.drafted t i o ho
  · by_cases ht : t' = t
    · subst ht
      simp only [ArtifactState.commit, Function.update_self] at ho
      cases ho
    · simp only [ArtifactState.commit, Function.update_of_ne ht] at ho ⊢
      exact (h.drafted t' i o ho).mono Draft.carries_after_commit hgrow
  · by_cases ht : t' = t
    · subst ht
      simp only [ArtifactState.commit, Function.update_self]
      trivial
    · simp only [ArtifactState.commit, Function.update_of_ne ht]
      exact (h.points t').mono Draft.carries_after_commit hgrow
        (fun sid key => hc.drafts.ids_grow ht (sid, key)) (hc.knows t')

/-- The row an insert adds was merged as its write records. -/
theorem attributed_inserted (hc : Chained svc.versionCap s)
    (h : Merged rt svc s) {w : PendingWrite} {prior : Option Uuid}
    {o : Origin} (hpoint : (s.txs t).point = .insert w prior)
    (ho : w.origin = some o)
    (hinsertable : VersionChain.Insertable svc.versionCap s.committed
      (fun t => (s.txs t).draft) t prior (w.row rt prior)) :
    Attributed rt s.blobs
      (((s.txs t).draft.extend prior (w.row rt prior)).on s.committed)
      (w.row rt prior).id o := by
  have hpoints := h.points t
  rw [hpoint] at hpoints
  obtain ⟨hv, hpayload, hplaced⟩ := hpoints o ho
  have hlast : prior = lastId (rowsOf (w.args.sessionId, w.args.key)
      ((s.txs t).draft.on s.committed)) := by
    have hflags := hinsertable.noLatest
    rw [VersionChain.rowsOf_map_demoteIn] at hflags
    exact (hc.drafts.chains t _).prior_of_demoted hinsertable.demotes hflags
  have hsource : prior = o.source :=
    hlast.trans (hv.next hinsertable.next)
  refine ⟨hv.read.mono Draft.carries_extend fun _ _ href => href,
    w.row rt prior, ?_, rfl, hsource, hv.mime, ?_⟩
  · rw [Draft.extend_on]
    exact List.mem_append_right _ (List.mem_singleton_self _)
  · rw [← hv.content]
    exact holds_newArtifact hpayload hplaced

theorem Merged.inserted (hc : Chained svc.versionCap s)
    (h : Merged rt svc s) {w : PendingWrite} {prior : Option Uuid}
    (hpoint : (s.txs t).point = .insert w prior)
    (hwaits : ¬ s.InsertWaits t (w.row rt prior))
    (hviolates : ¬ Violates ((s.txs t).view s.committed)
      (w.row rt prior)) :
    Merged rt svc
      (s.after t (.inserted (w.row rt prior) prior w.origin)) := by
  refine ⟨h.committed, fun t' i o ho => ?_, fun t' => ?_⟩
  · by_cases ht : t' = t
    · subst ht
      simp only [ArtifactState.after, Function.update_self] at ho ⊢
      rcases List.mem_append.mp ho with ho | ho
      · exact (h.drafted t' i o ho).mono Draft.carries_extend
          fun _ _ href => href
      · obtain ⟨o', ho', heq⟩ := List.mem_map.mp ho
        injection heq with hid heq
        subst hid heq
        exact attributed_inserted hc h hpoint (Option.mem_toList.mp ho')
          (insertable hc hpoint hwaits hviolates)
    · simp only [ArtifactState.after, Function.update_of_ne ht] at ho ⊢
      exact h.drafted t' i o ho
  · by_cases ht : t' = t
    · subst ht
      simp only [ArtifactState.after, Function.update_self]
      trivial
    · simp only [ArtifactState.after, Function.update_of_ne ht]
      exact h.points t'

/-- One step keeps the recorded merges. -/
theorem Merged.step {a : ArtifactAction n} (hc : Chained svc.versionCap s)
    (h : Merged rt svc s) (hfresh : FreshMerge a s)
    (hstep : ArtifactState.step rt svc a s = some s') :
    Merged rt svc s' := by
  cases a with
  | call t c =>
      simp only [ArtifactState.step] at hstep
      split at hstep
      · injection hstep with hstep
        subst hstep
        refine h.goes hc (fun _ _ href => href) ?_
        cases c with
        | write a => exact fun _ h => by cases h
        | update u => trivial
      · cases hstep
  | statement t id =>
      obtain ⟨outcome, hs, rfl⟩ := Option.map_eq_some_iff.mp hstep
      cases outcome with
      | goes p blobs =>
          obtain ⟨hgrow, hp⟩ := statement_merges hc h hfresh hs
          exact h.goes hc hgrow hp
      | inserted row prior origin =>
          obtain ⟨w, hpoint, rfl, rfl, hwaits, hviolates⟩ :=
            statement_inserted hs
          exact h.inserted hc hpoint hwaits hviolates
      | raised e => exact h.rollback
  | commit t =>
      simp only [ArtifactState.step] at hstep
      split at hstep
      · injection hstep with hstep
        subst hstep
        exact h.commit hc
      · cases hstep
  | rollback t =>
      injection hstep with hstep
      subst hstep
      exact h.rollback

/-- Every state reached has its merges as recorded. -/
theorem reaches_merged (h : ArtifactReaches rt svc FreshMerge s) :
    Merged rt svc s := by
  have hboth : Chained svc.versionCap s ∧ Merged rt svc s := by
    refine Lts.Reachable.invariant
      (P := fun s => Chained svc.versionCap s ∧ Merged rt svc s) ?_ ?_ h
    · exact ⟨⟨Drafts.init, fun _ => trivial⟩, (fun _ _ h => by cases h),
        (fun _ _ _ h => by cases h),
        fun _ => trivial⟩
    · intro s a s' _ hs hfresh hstep
      exact ⟨hs.1.step hstep, hs.2.step hs.1 hfresh hstep⟩
  exact hboth.2

end Steps

-- ==================================================================== runs

section Runs

variable {n : Nat} {rt : Runtime} {svc : ArtifactService}
  {s : ArtifactState n}

/-- What the record of a merge says about the committed rows. -/
theorem Merged.applied (hc : Chained svc.versionCap s)
    (h : Merged rt svc s) : MergesApplied rt s := by
  intro r hr o ho
  obtain ⟨hread, r', hr', hid, hprior, hmime, hholds⟩ := h.committed _ _ ho
  obtain rfl : r' = r :=
    VersionChain.eq_of_id hc.drafts.committedIds hr' hr hid
  obtain ⟨v, hv⟩ := hholds.value hmime
  rw [hv] at hholds
  refine ⟨o.previous, v, hv, hmime, hholds, ?_⟩
  have hlinked := (hc.drafts.committed (r'.sessionId, r'.key)).linked
  have hmem : r' ∈ rowsOf (r'.sessionId, r'.key) s.committed :=
    mem_rowsOf.mpr ⟨hr, rfl⟩
  unfold SourceRead at hread
  cases hsource : o.source with
  | none =>
      rw [hsource] at hread hprior
      exact Or.inl ⟨hlinked.first_of_no_prior hmem hprior, hprior, hread⟩
  | some q =>
      rw [hsource] at hread hprior
      obtain ⟨x, hx, hxid, hresolve⟩ := hread
      obtain ⟨y, hy, hyid, hversion⟩ := hlinked.prior_mem hmem hprior
      obtain ⟨hyC, hcell⟩ := mem_rowsOf.mp hy
      obtain rfl : y = x := VersionChain.eq_of_id hc.drafts.committedIds
        hyC hx (hyid.trans hxid.symm)
      refine Or.inr ⟨y, hx, ?_, congrArg Prod.fst hcell,
        congrArg Prod.snd hcell, hversion, hresolve⟩
      rw [hprior, ← hxid]

/-- One merge on top of the versions before it. -/
theorem currentContent_concat (hc : Chained svc.versionCap s)
    (happlied : MergesApplied rt s) {sid : Uuid} {key : String}
    {pre rest : List Artifact} {r : Artifact} {o : Origin} {base : Content}
    (hrows : rowsOf (sid, key) s.committed = pre ++ r :: rest)
    (ho : (r.id, o) ∈ s.origins)
    (hbase : currentContent rt s.blobs pre = .ok base)
    (hloads : ∀ v, mergeContent base o.patch = .value v → LoadsBack rt v) :
    currentContent rt s.blobs (pre ++ [r])
      = .ok (mergeContent base o.patch) := by
  have hsplit : rowsOf (sid, key) s.committed = pre ++ [r] ++ rest := by
    rw [hrows, List.append_assoc]
    rfl
  have hlinked := (hc.drafts.committed (sid, key)).linked
  rw [hsplit] at hlinked
  obtain ⟨-, -, hlast⟩ := hlinked.of_append.of_concat
  have hcommitted : ∀ x ∈ pre ++ r :: rest, x ∈ s.committed := by
    intro x hx
    rw [← hrows] at hx
    exact (mem_rowsOf.mp hx).1
  obtain ⟨content, v, hv, hmime, hholds, hprev⟩ :=
    happlied r (hcommitted r (by simp)) o ho
  -- the content it was merged into is the one before it
  have hsame : content = base := by
    rcases hprev with ⟨-, hnone, rfl⟩ | ⟨prev, hmem, hprior, -, -, -, hread⟩
    · have hnil : pre = [] :=
        List.getLast?_eq_none_iff.mp
          (Option.map_eq_none_iff.mp (hlast.symm.trans hnone))
      subst hnil
      injection hbase
    · obtain ⟨y, hy, hyid⟩ :=
        Option.map_eq_some_iff.mp (hlast.symm.trans hprior)
      obtain rfl : y = prev := by
        refine VersionChain.eq_of_id hc.drafts.committedIds
          (hcommitted y ?_) hmem hyid
        exact List.mem_append_left _ (List.mem_of_getLast? hy)
      unfold currentContent at hbase
      rw [hy] at hbase
      simp only [hread] at hbase
      injection hbase
  subst hsame
  unfold currentContent
  rw [List.getLast?_concat, hv]
  exact hholds.resolve_value hmime (hloads v hv)

/-- In every run in which no commit of a key falls between the read and
the version of a merge of it, every merge is in the content of its
version, and the latest content reflects every patch. -/
theorem merges_applied (h : ArtifactReaches rt svc FreshMerge s) :
    MergesApplied rt s ∧ ∀ sid key, LatestReflects rt s sid key := by
  have hc : Chained svc.versionCap s := reaches_chained h
  have happlied := (reaches_merged h).applied hc
  refine ⟨happlied, fun sid key pre merged os base hrows horigins => ?_⟩
  induction horigins generalizing pre base with
  | nil =>
      intro hbase _
      rw [List.append_nil]
      exact hbase
  | @cons r o merged os ho _ ih =>
      intro hbase hloads
      have hnext := currentContent_concat hc happlied hrows ho hbase
        fun v hv => hloads [o] v (List.cons_ne_nil o [])
          (List.prefix_append [o] os) hv
      have hsplit : pre ++ r :: merged = pre ++ [r] ++ merged := by
        rw [List.append_assoc]
        rfl
      rw [hsplit] at hrows ⊢
      exact ih (pre ++ [r]) (mergeContent base o.patch) hrows hnext
        fun done v hne hdone hv => hloads (o :: done) v
          (List.cons_ne_nil o done) (List.prefix_cons_inj o |>.mpr hdone) hv

end Runs

-- =============================================================== scenarios

/-- Merge `patch` into `plan/a` of session 10. -/
def mergeInto (patch : Json) : ArtifactCall :=
  .update
    { sessionId := 10, key := "plan/a", patchOrContent := .value patch
      merge := .jsonMergePatch, runId := none, producer := "system"
      kind := none, mime := "application/json", metadata := none
      createdBy := none }

/-- A merge of `{"a": 1}` and, after its commit, one of `{"b": 2}`. -/
def mergesInTurn : List (ArtifactAction 2) :=
  [.call 0 (mergeInto (.obj [("a", .int 1)])), .statement 0 0,
    .statement 0 0, .statement 0 1, .statement 0 0, .statement 0 0,
    .commit 0,
    .call 1 (mergeInto (.obj [("b", .int 2)])), .statement 1 0,
    .statement 1 0, .statement 1 2, .statement 1 0, .statement 1 0,
    .statement 1 0, .commit 1]

/-- Both patches are in version 2. -/
theorem merges_in_turn_applied :
    ∃ s, Lts.run (Lts.guarded (ArtifactState.step Runtime.sample
          ArtifactService.default) FreshMerge)
        (ArtifactState.init 2) mergesInTurn = some s
      ∧ s.committed.map (fun r => (r.version, r.contentInline))
        = [(1, some (.obj [("a", .int 1)])),
          (2, some (.obj [("a", .int 1), ("b", .int 2)]))]
      ∧ MergesApplied Runtime.sample s
      ∧ ∀ sid key, LatestReflects Runtime.sample s sid key := by
  have hrows : (Lts.run (Lts.guarded (ArtifactState.step Runtime.sample
      ArtifactService.default) FreshMerge) (ArtifactState.init 2)
      mergesInTurn).map (fun s => s.committed.map fun r =>
        (r.version, r.contentInline))
      = some [(1, some (.obj [("a", .int 1)])),
        (2, some (.obj [("a", .int 1), ("b", .int 2)]))] := by
    decide +kernel
  obtain ⟨s, hs, hmap⟩ := Option.map_eq_some_iff.mp hrows
  exact ⟨s, hs, hmap, merges_applied
    (Lts.reachable_of_guarded_run .init hs)⟩

/-- The second merge reads before the first one commits and takes its
version afterwards. -/
def racingMerges : List (ArtifactAction 2) :=
  [.call 1 (mergeInto (.obj [("b", .int 2)])), .statement 1 0,
    .call 0 (mergeInto (.obj [("a", .int 1)])), .statement 0 0,
    .statement 0 0, .statement 0 1, .statement 0 0, .statement 0 0,
    .commit 0,
    .statement 1 0, .statement 1 2, .statement 1 0, .statement 1 0,
    .statement 1 0, .commit 1]

/-- Version 2 supersedes version 1 and lacks its patch. -/
theorem racing_merge_lost :
    ∃ s : ArtifactState 2, ArtifactReaches Runtime.sample
        ArtifactService.default Lts.Always s
      ∧ s.committed.map (fun r => (r.id, r.version,
          r.supersedesArtifactId, r.contentInline))
        = [(1, 1, none, some (.obj [("a", .int 1)])),
          (2, 2, some 1, some (.obj [("b", .int 2)]))]
      ∧ ¬ MergesApplied Runtime.sample s := by
  have hrun : (Lts.run (ArtifactState.step Runtime.sample
      ArtifactService.default) (ArtifactState.init 2) racingMerges).map
      (fun s => (s.committed.map fun r => (r.id, r.version,
        r.supersedesArtifactId, r.contentInline), s.origins,
        s.committed.map fun r => r.storage))
      = some ([(1, 1, none, some (.obj [("a", .int 1)])),
          (2, 2, some 1, some (.obj [("b", .int 2)]))],
        [(1, ⟨.value (.obj [("a", .int 1)]), none, .value (.obj [])⟩),
          (2, ⟨.value (.obj [("b", .int 2)]), none, .value (.obj [])⟩)],
        [.inline, .inline]) := by
    rfl
  obtain ⟨s, hs, hmap⟩ := Option.map_eq_some_iff.mp hrun
  obtain ⟨hrows, hrest⟩ := Prod.mk.inj hmap
  obtain ⟨horigins, hstorage⟩ := Prod.mk.inj hrest
  refine ⟨s, Lts.reachable_of_run .init hs, hrows, fun happlied => ?_⟩
  obtain ⟨r₁, l, hl, hr₁, hl'⟩ := List.map_eq_cons_iff.mp hrows
  obtain ⟨r₂, l', rfl, hr₂, hnil⟩ := List.map_eq_cons_iff.mp hl'
  obtain rfl := List.map_eq_nil_iff.mp hnil
  simp only [Prod.mk.injEq] at hr₁ hr₂
  rw [hl] at hstorage
  simp only [List.map_cons, List.map_nil, List.cons.injEq, and_true]
    at hstorage
  obtain ⟨content, v, hv, -, hholds, hprev⟩ := happlied r₂ (by simp [hl])
    ⟨.value (.obj [("b", .int 2)]), none, .value (.obj [])⟩
    (by simp [horigins, hr₂])
  unfold Holds at hholds
  simp only [hstorage.2, hr₂.2.2.2, Option.some.injEq] at hholds
  obtain ⟨-, v', hv', rfl⟩ := hholds
  injection hv' with hv'
  subst hv'
  rcases hprev with ⟨hone, -⟩ | ⟨prev, hmem, hprior, -, -, -, hread⟩
  · omega
  · -- it supersedes version 1, which holds the other patch
    have hprev : prev = r₁ := by
      rw [hl] at hmem
      rw [hr₂.2.2.1, Option.some.injEq] at hprior
      rcases List.mem_cons.mp hmem with heq | hmem
      · exact heq
      · rw [List.mem_singleton.mp hmem, hr₂.1] at hprior
        cases hprior
    subst hprev
    unfold resolvePayload at hread
    simp only [hstorage.1, hr₁.2.2.2, Option.getD_some, Except.ok.injEq]
      at hread
    subst hread
    exact absurd hv (by decide)

end LegalBot
