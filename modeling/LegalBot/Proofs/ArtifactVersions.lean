/-
The version chains of concurrent artifact writes.

# What the indexes cut off

Nothing holds between the three statements of a write: the version it
read may be taken and the row it demoted may be history by the time it
inserts. An insert that goes through still extends the chain, because
what it needs is checked at that moment: a stale version is not free,
and a view without a latest row is one whose last row this call has
demoted. `insertable` is that argument; the rest is
`VersionChain.Drafts`.

# What a transaction knows

`Knows` is the part that is not checked at the insert: the version is at
most one past what the transaction sees now, and the row to demote is
among it. Both only ask that the ids seen in a cell are added to, never
taken away.
-/
import LegalBot.Artifacts.Transactions

namespace LegalBot

open VersionChain (Draft Drafts IsChain Versioned demoteIn maxVersion
  mem_rowsOf rowsOf)

-- ============================================================== statements

/-- The rows under a key are the versions `1, …, n` with `n` within the
cap, the last one is the latest, and each supersedes the one before. -/
def VersionsChained (cap : Nat) (rows : List Artifact) (sessionId : Uuid)
    (key : String) : Prop :=
  let l := rowsOf (sessionId, key) rows
  ∃ n, n ≤ cap
    ∧ l.map (·.version) = List.range' 1 n
    ∧ (l.filter (·.isLatest)).map (·.version)
      = (if n = 0 then [] else [n])
    ∧ (∀ r ∈ l, r.version = 1 → r.supersedesArtifactId = none)
    ∧ ∀ r ∈ l, ∀ r' ∈ l, r'.version = r.version + 1 →
      r'.supersedesArtifactId = some r.id

/-- A chain of the library, read as rows of the table. -/
theorem versionsChained_of_isChain {cap : Nat} {rows : List Artifact}
    {sid : Uuid} {key : String} (h : IsChain (rowsOf (sid, key) rows))
    (hcap : (rowsOf (sid, key) rows).length ≤ cap) :
    VersionsChained cap rows sid key := by
  refine ⟨_, hcap, h.linked.versions, ?_, fun r hr hone =>
    h.linked.prior_of_first hr hone, fun r hr r' hr' hnext =>
    h.linked.prior_of_next hr hr' hnext⟩
  have hflagged := h.flagged
  have hversions := h.linked.versions
  revert hflagged hversions
  generalize rowsOf (sid, key) rows = l
  intro hflagged hversions
  rcases List.eq_nil_or_concat l with rfl | ⟨l', r, rfl⟩
  · rfl
  · rw [List.concat_eq_append] at hflagged hversions ⊢
    have hr : r.version = (l' ++ [r]).length := by
      rw [List.map_append, List.length_append, List.length_singleton,
        List.range'_concat] at hversions
      have hlast := List.append_inj_right' hversions rfl
      have hone := (List.cons.inj hlast).1
      rw [List.length_append, List.length_singleton]
      have : Versioned.version r = r.version := rfl
      omega
    have hfilter : (l' ++ [r]).filter (·.isLatest) = [r] := by
      rw [List.getLast?_concat] at hflagged
      exact hflagged
    rw [hfilter, List.map_singleton, hr, if_neg (by simp)]

-- =============================================================== knowledge

/-- The ids a transaction sees in a cell, in order. -/
def ArtifactTx.seen (tx : ArtifactTx) (committed : List Artifact)
    (sid : Uuid) (key : String) : List Uuid :=
  (rowsOf (sid, key) (tx.draft.on committed)).map (·.id)

/-- A version that was next when it was read. -/
def VersionKnown (cap : Nat) (seen : Uuid → String → List Uuid)
    (a : WriteArgs) (version : Nat) : Prop :=
  1 ≤ version ∧ version ≤ (seen a.sessionId a.key).length + 1
    ∧ version ≤ cap

/-- What a transaction still knows from its earlier statements. -/
def Knows (cap : Nat) (seen : Uuid → String → List Uuid) :
    WritePoint → Prop
  | .storePayload a _ version => VersionKnown cap seen a version
  | .selectLatest w => VersionKnown cap seen w.args w.version
  | .demote w prior => VersionKnown cap seen w.args w.version
      ∧ prior ∈ seen w.args.sessionId w.args.key
  | .insert w prior => VersionKnown cap seen w.args w.version
      ∧ ∀ q, prior = some q → q ∈ seen w.args.sessionId w.args.key
  | _ => True

/-- Every transaction sees chains and knows what it should. -/
structure Chained {n : Nat} (cap : Nat) (s : ArtifactState n) : Prop where
  drafts : Drafts cap s.committed fun t => (s.txs t).draft
  knows : ∀ t, Knows cap ((s.txs t).seen s.committed) (s.txs t).point

section Knowledge

variable {cap : Nat} {seen seen' : Uuid → String → List Uuid}

theorem VersionKnown.mono (h : ∀ sid key, seen sid key <+: seen' sid key)
    {a : WriteArgs} {version : Nat} (hv : VersionKnown cap seen a version) :
    VersionKnown cap seen' a version := by
  obtain ⟨hpos, hle, hcap⟩ := hv
  have hlen := (h a.sessionId a.key).length_le
  exact ⟨hpos, by omega, hcap⟩

/-- Knowledge survives the commits of others. -/
theorem Knows.mono (h : ∀ sid key, seen sid key <+: seen' sid key)
    {p : WritePoint} (hp : Knows cap seen p) : Knows cap seen' p := by
  cases p with
  | storePayload a origin version => exact VersionKnown.mono h hp
  | selectLatest w => exact VersionKnown.mono h hp
  | demote w prior => exact ⟨hp.1.mono h, (h _ _).subset hp.2⟩
  | insert w prior =>
      exact ⟨hp.1.mono h, fun q hq => (h _ _).subset (hp.2 q hq)⟩
  | _ => trivial

end Knowledge

-- ================================================================== insert

section Insert

variable {n : Nat} {rt : Runtime} {svc : ArtifactService}
  {s : ArtifactState n} {t : Fin n} {w : PendingWrite}
  {prior : Option Uuid}

/-- An insert that goes through extends the chain its transaction
sees. -/
theorem insertable (h : Chained svc.versionCap s)
    (hpoint : (s.txs t).point = .insert w prior)
    (hwaits : ¬ s.InsertWaits t (w.row rt prior))
    (hviolates : ¬ Violates ((s.txs t).view s.committed)
      (w.row rt prior)) :
    VersionChain.Insertable svc.versionCap s.committed
      (fun t => (s.txs t).draft) t prior (w.row rt prior) := by
  have hknows := h.knows t
  rw [hpoint] at hknows
  obtain ⟨⟨hpos, hle, hcap⟩, hprior⟩ := hknows
  have hview : (s.txs t).view s.committed
      = ((s.txs t).draft.on s.committed).map (demoteIn prior.toList) := by
    unfold ArtifactTx.view
    rw [hpoint]
    rfl
  have hchain := h.drafts.chains t (w.args.sessionId, w.args.key)
  -- no row it sees conflicts with the new one
  have hclear : ∀ x ∈ ((s.txs t).draft.on s.committed).map
      (demoteIn prior.toList), ¬ x.conflicts (w.row rt prior) := by
    intro x hx hconflict
    rw [← hview] at hx
    exact hviolates ⟨x, hx, hconflict⟩
  have hfresh : ∀ x ∈ (s.txs t).draft.on s.committed,
      Versioned.cell x = (w.args.sessionId, w.args.key) →
      Versioned.version x ≠ w.version := by
    intro x hx hcell hversion
    refine hclear _ (List.mem_map_of_mem hx)
      (Artifact.conflicts_iff.mpr (Or.inr ⟨?_, Or.inl ?_⟩))
    · rw [VersionChain.cell_demoteIn, hcell]
      rfl
    · rw [VersionChain.version_demoteIn, hversion]
      rfl
  refine ⟨fun q hq => ?_, rfl, rfl, ?_, hcap, fun x hx => ?_, fun hid => ?_,
    fun t' ht r' hr' => ?_⟩
  · obtain ⟨x, hx, hid⟩ := List.mem_map.mp (hprior q hq)
    exact ⟨x, hx, hid⟩
  · -- a version that is not past the end is taken
    show w.version = (rowsOf (w.args.sessionId, w.args.key)
      ((s.txs t).draft.on s.committed)).length + 1
    unfold ArtifactTx.seen at hle
    rw [List.length_map] at hle
    by_contra hne
    have hmem : w.version ∈ (rowsOf (w.args.sessionId, w.args.key)
        ((s.txs t).draft.on s.committed)).map Versioned.version := by
      rw [hchain.linked.versions, List.mem_range'_1]
      omega
    obtain ⟨x, hx, hversion⟩ := List.mem_map.mp hmem
    obtain ⟨hxon, hxcell⟩ := mem_rowsOf.mp hx
    exact hfresh x hxon hxcell hversion
  · obtain ⟨hxmap, hxcell⟩ := mem_rowsOf.mp hx
    by_contra hlatest
    refine hclear x hxmap (Artifact.conflicts_iff.mpr
      (Or.inr ⟨hxcell, Or.inr ⟨?_, rfl⟩⟩))
    simpa using hlatest
  · obtain ⟨x, hx, hxid⟩ := List.mem_map.mp hid
    refine hclear _ (List.mem_map_of_mem hx)
      (Artifact.conflicts_iff.mpr (Or.inl ?_))
    rw [VersionChain.id_demoteIn]
    exact hxid
  · have halone : ∀ x ∈ (s.txs t').draft.inserted,
        ¬ x.conflicts (w.row rt prior) := fun x hx hconflict =>
      hwaits ⟨t', ht, Or.inl ⟨x, hx, hconflict⟩⟩
    refine ⟨fun hid => halone r' hr' (Artifact.conflicts_iff.mpr
      (Or.inl hid)), fun hcell => ?_⟩
    -- the latest row of that cell is among the other's inserts
    obtain ⟨x, hx, hxcell, hlatest⟩ := h.drafts.latest_inserted hr'
    exact halone x hx (Artifact.conflicts_iff.mpr
      (Or.inr ⟨hxcell.trans hcell, Or.inr ⟨hlatest, rfl⟩⟩))

end Insert

-- =================================================================== steps

section Steps

variable {n : Nat} {rt : Runtime} {svc : ArtifactService}
  {s s' : ArtifactState n} {t : Fin n} {id : Uuid}

/-- Before its demotion a transaction sees its draft. -/
theorem view_of_not_demoted (h : (s.txs t).point.demoted = []) :
    (s.txs t).view s.committed = (s.txs t).draft.on s.committed := by
  unfold ArtifactTx.view
  rw [h]
  exact VersionChain.map_demoteIn_of_disjoint fun _ _ => (fun h => by cases h)

/-- A statement hands its successor what it has to know. -/
theorem statement_knows (h : Chained svc.versionCap s) {p : WritePoint}
    {blobs : Blobs}
    (hs : s.statement rt svc t id = some (.goes p blobs)) :
    Knows svc.versionCap ((s.txs t).seen s.committed) p := by
  have hknows := h.knows t
  unfold ArtifactState.statement at hs
  simp only at hs
  cases hpoint : (s.txs t).point with
  | idle =>
      rw [hpoint] at hs
      cases hs
  | readContent u =>
      rw [hpoint] at hs
      simp only at hs
      split at hs
      · injection hs with hs
        injection hs with hp _
        rw [← hp]
        trivial
      · cases hs
  | nextVersion a origin =>
      have hview : (s.txs t).view s.committed
          = (s.txs t).draft.on s.committed :=
        view_of_not_demoted (by rw [hpoint]; rfl)
      have hchain := h.drafts.chains t (a.sessionId, a.key)
      rw [hpoint, hview] at hs
      simp only at hs
      split at hs
      · cases hs
      · rename_i hcap
        injection hs with hs
        injection hs with hp _
        rw [← hp]
        have hnext : nextVersion ((s.txs t).draft.on s.committed)
            a.sessionId a.key
            = ((s.txs t).seen s.committed a.sessionId a.key).length + 1 := by
          unfold nextVersion ArtifactTx.seen
          rw [hchain.linked.maxVersion_eq, List.length_map]
        refine ⟨by omega, by omega, by omega⟩
  | storePayload a origin version =>
      rw [hpoint] at hs hknows
      simp only at hs
      split at hs
      · cases hs
      · split at hs
        · cases hs
        · injection hs with hs
          injection hs with hp _
          rw [← hp]
          exact hknows
  | selectLatest w =>
      have hview : (s.txs t).view s.committed
          = (s.txs t).draft.on s.committed :=
        view_of_not_demoted (by rw [hpoint]; rfl)
      rw [hpoint, hview] at hs
      rw [hpoint] at hknows
      simp only at hs
      split at hs
      · injection hs with hs
        injection hs with hp _
        rw [← hp]
        exact ⟨hknows, (fun _ h => by cases h)⟩
      · rename_i prior hprior
        injection hs with hs
        injection hs with hp _
        rw [← hp]
        refine ⟨hknows, ?_⟩
        have hlist := scalarOneOrNone_some hprior
        have hmem : prior ∈ (List.filter (fun r => r.isLatest)
            (rowsOf (w.args.sessionId, w.args.key)
              ((s.txs t).draft.on s.committed))).map (·.id) := by
          rw [hlist]
          exact List.mem_singleton_self _
        exact (List.filter_sublist.map _).subset hmem
      · cases hs
  | demote w prior =>
      rw [hpoint] at hs hknows
      simp only at hs
      split at hs
      · cases hs
      · injection hs with hs
        injection hs with hp _
        rw [← hp]
        refine ⟨hknows.1, fun q hq => ?_⟩
        injection hq with hq
        rw [← hq]
        exact hknows.2
  | insert w prior =>
      rw [hpoint] at hs
      simp only at hs
      split at hs
      · cases hs
      · split at hs
        · cases hs
        · cases hs

/-- Only an insert that neither waits nor violates adds a row. -/
theorem statement_inserted {row : Artifact} {prior : Option Uuid}
    {origin : Option Origin}
    (hs : s.statement rt svc t id = some (.inserted row prior origin)) :
    ∃ w, (s.txs t).point = .insert w prior ∧ row = w.row rt prior
      ∧ origin = w.origin ∧ ¬ s.InsertWaits t row
      ∧ ¬ Violates ((s.txs t).view s.committed) row := by
  unfold ArtifactState.statement at hs
  simp only at hs
  cases hpoint : (s.txs t).point with
  | insert w prior' =>
      rw [hpoint] at hs
      simp only at hs
      split at hs
      · cases hs
      · rename_i hwaits
        split at hs
        · cases hs
        · rename_i hviolates
          injection hs with hs
          injection hs with hrow hprior horigin
          subst hprior
          subst hrow
          exact ⟨w, rfl, rfl, horigin.symm, hwaits, hviolates⟩
  | idle =>
      rw [hpoint] at hs
      cases hs
  | _ =>
      rw [hpoint] at hs
      simp only at hs
      grind

/-- The drafts after one transaction is replaced. -/
theorem drafts_update (txs : Fin n → ArtifactTx) (t : Fin n)
    (tx : ArtifactTx) :
    (fun t' => (Function.update txs t tx t').draft)
      = Function.update (fun t' => (txs t').draft) t tx.draft := by
  funext t'
  by_cases ht : t' = t
  · rw [ht, Function.update_self, Function.update_self]
  · rw [Function.update_of_ne ht, Function.update_of_ne ht]

theorem Chained.goes (h : Chained svc.versionCap s) {p : WritePoint}
    {blobs : Blobs}
    (hp : Knows svc.versionCap ((s.txs t).seen s.committed) p) :
    Chained svc.versionCap (s.after t (.goes p blobs)) := by
  refine ⟨?_, fun t' => ?_⟩
  · show Drafts _ _ fun t' => (Function.update s.txs t
      { s.txs t with point := p } t').draft
    rw [drafts_update, Function.update_eq_self]
    exact h.drafts
  · show Knows _ ((Function.update s.txs t
      { s.txs t with point := p } t').seen s.committed) _
    by_cases ht : t' = t
    · subst ht
      simp only [ArtifactState.after, Function.update_self]
      exact hp
    · simp only [ArtifactState.after, Function.update_of_ne ht]
      exact h.knows t'

theorem Chained.rollback (h : Chained svc.versionCap s) :
    Chained svc.versionCap (s.rollback t) := by
  refine ⟨?_, fun t' => ?_⟩
  · show Drafts _ _ fun t' => (Function.update s.txs t .start t').draft
    rw [drafts_update]
    exact h.drafts.rollback
  · by_cases ht : t' = t
    · subst ht
      simp only [ArtifactState.rollback, Function.update_self]
      trivial
    · simp only [ArtifactState.rollback, Function.update_of_ne ht]
      exact h.knows t'

theorem Chained.commit (h : Chained svc.versionCap s) :
    Chained svc.versionCap (s.commit t) := by
  refine ⟨?_, fun t' => ?_⟩
  · show Drafts _ ((s.txs t).draft.on s.committed)
      fun t' => (Function.update s.txs t .start t').draft
    rw [drafts_update]
    exact h.drafts.commit
  · by_cases ht : t' = t
    · subst ht
      simp only [ArtifactState.commit, Function.update_self]
      trivial
    · simp only [ArtifactState.commit, Function.update_of_ne ht]
      exact (h.knows t').mono fun sid key =>
        h.drafts.ids_grow ht (sid, key)

theorem Chained.inserted (h : Chained svc.versionCap s) {w : PendingWrite}
    {prior : Option Uuid} {origin : Option Origin}
    (hpoint : (s.txs t).point = .insert w prior)
    (hwaits : ¬ s.InsertWaits t (w.row rt prior))
    (hviolates : ¬ Violates ((s.txs t).view s.committed)
      (w.row rt prior)) :
    Chained svc.versionCap
      (s.after t (.inserted (w.row rt prior) prior origin)) := by
  refine ⟨?_, fun t' => ?_⟩
  · simp only [ArtifactState.after]
    rw [drafts_update]
    exact h.drafts.insert (insertable h hpoint hwaits hviolates)
  · by_cases ht : t' = t
    · subst ht
      simp only [ArtifactState.after, Function.update_self]
      trivial
    · simp only [ArtifactState.after, Function.update_of_ne ht]
      exact h.knows t'

/-- One step keeps the chains. -/
theorem Chained.step {a : ArtifactAction n} (h : Chained svc.versionCap s)
    (hstep : ArtifactState.step rt svc a s = some s') :
    Chained svc.versionCap s' := by
  cases a with
  | call t c =>
      simp only [ArtifactState.step] at hstep
      split at hstep
      · injection hstep with hstep
        subst hstep
        refine h.goes ?_
        cases c <;> trivial
      · cases hstep
  | statement t id =>
      obtain ⟨outcome, hs, rfl⟩ := Option.map_eq_some_iff.mp hstep
      cases outcome with
      | goes p blobs => exact h.goes (statement_knows h hs)
      | inserted row prior origin =>
          obtain ⟨w, hpoint, rfl, -, hwaits, hviolates⟩ :=
            statement_inserted hs
          exact h.inserted hpoint hwaits hviolates
      | raised e => exact h.rollback
  | commit t =>
      simp only [ArtifactState.step] at hstep
      split at hstep
      · injection hstep with hstep
        subst hstep
        exact h.commit
      · cases hstep
  | rollback t =>
      injection hstep with hstep
      subst hstep
      exact h.rollback

/-- Every state reached has chains, whatever the steps. -/
theorem reaches_chained {G : ArtifactAction n → ArtifactState n → Prop}
    (h : ArtifactReaches rt svc G s) : Chained svc.versionCap s := by
  refine Lts.Reachable.invariant
    (P := fun s => Chained svc.versionCap s) ?_ ?_ h
  · exact ⟨Drafts.init, fun _ => trivial⟩
  · intro s a s' _ hs _ hstep
    exact hs.step hstep

/-- A statement commits nothing, and one that raises ends its
transaction. -/
theorem statement_committed
    (hstep : ArtifactState.step rt svc (.statement t id) s = some s') :
    s'.committed = s.committed ∧
      ∀ e, s.statement rt svc t id = some (.raised e) →
        s' = s.rollback t := by
  obtain ⟨outcome, hs, rfl⟩ := Option.map_eq_some_iff.mp hstep
  refine ⟨by cases outcome <;> rfl, fun e he => ?_⟩
  rw [he] at hs
  injection hs with hs
  rw [← hs]
  rfl

end Steps

-- ==================================================================== runs

/-- In every state that any interleaving of the statements of any number
of transactions reaches, the committed versions under every key form a
chain within the cap; and a statement that raises leaves the committed
rows as they were and nothing of its transaction behind. -/
theorem versions_chained {n : Nat} {rt : Runtime} {svc : ArtifactService}
    {s : ArtifactState n} (h : ArtifactReaches rt svc Lts.Always s) :
    (∀ sid key, VersionsChained svc.versionCap s.committed sid key)
      ∧ ∀ t id e s', s.statement rt svc t id = some (.raised e) →
        ArtifactState.step rt svc (.statement t id) s = some s' →
        s'.committed = s.committed ∧ s'.txs t = .start := by
  have hchained := reaches_chained h
  refine ⟨fun sid key => versionsChained_of_isChain
    (hchained.drafts.committed (sid, key))
    (hchained.drafts.committedBound (sid, key)),
    fun t id e s' he hstep => ?_⟩
  obtain ⟨hcommitted, hraised⟩ := statement_committed hstep
  refine ⟨hcommitted, ?_⟩
  rw [hraised e he]
  exact Function.update_self _ _ _

-- =============================================================== scenarios

/-- Write `1` under `plan/a` of session 10. -/
def writeOne : WriteArgs :=
  { sessionId := 10, key := "plan/a", content := .value (.int 1)
    kind := "custom", producer := "system", runId := none
    mime := "application/json", metadata := none, createdBy := none }

/-- Two transactions read version 0; the first inserts version 1 and
commits, the insert of the second raises; its next call writes version
2. -/
def racingWrites : List (ArtifactAction 2) :=
  [.call 0 (.write writeOne), .statement 0 0,
    .call 1 (.write writeOne), .statement 1 0,
    .statement 0 1, .statement 0 0, .statement 0 0, .commit 0,
    .statement 1 2, .statement 1 0, .statement 1 0, .statement 1 0,
    .call 1 (.write writeOne), .statement 1 0, .statement 1 3,
    .statement 1 0, .statement 1 0, .statement 1 0, .commit 1]

/-- The chain after the race. -/
theorem racing_writes_chained :
    ∃ s, Lts.run (ArtifactState.step Runtime.sample ArtifactService.default)
        (ArtifactState.init 2) racingWrites = some s
      ∧ s.committed.map (fun r => (r.id, r.version, r.isLatest))
        = [(1, 1, false), (3, 2, true)]
      ∧ ∀ sid key, VersionsChained 20 s.committed sid key := by
  obtain ⟨s, hs⟩ := Option.isSome_iff_exists.mp
    (show (Lts.run (ArtifactState.step Runtime.sample
      ArtifactService.default) (ArtifactState.init 2)
      racingWrites).isSome by decide)
  have hrows : (Lts.run (ArtifactState.step Runtime.sample
      ArtifactService.default) (ArtifactState.init 2) racingWrites).map
      (fun s => s.committed.map fun r => (r.id, r.version, r.isLatest))
      = some [(1, 1, false), (3, 2, true)] := by decide
  rw [hs] at hrows
  exact ⟨s, hs, Option.some.inj hrows,
    (versions_chained (Lts.reachable_of_run .init hs)).1⟩

end LegalBot
