/-
The artifact table as an append-only log.

# The log

`logOf` forgets the flags, the ids of the demoted rows and where the
payloads are kept: it leaves, for each session and key, the rows in the
order of their versions with what they read as, and for each open
transaction those it has inserted.

# Refinement

In the states that concurrent `write` and `update` calls reach, every
step is one of the log or none (`step_logs`), a commit publishes, and a
read, committed or by an open transaction, looks an entry up
(`read_of_log`). So what holds of every log holds of the service.
-/
import LegalBot.Lib.AppendLog
import LegalBot.Proofs.LastingRows

namespace LegalBot

open VersionChain (Draft Versioned demoteIn rowsOf)

-- ===================================================================== logs

/-- A row without its flag, and what its payload reads as. -/
abbrev LogEntry := Artifact × Except ArtifactError Content

def entryOf (rt : Runtime) (blobs : Blobs) (row : Artifact) : LogEntry :=
  (Versioned.demote row, resolvePayload rt blobs row)

/-- The log of a state. -/
def logOf {n : Nat} (rt : Runtime) (s : ArtifactState n) :
    AppendLog.Store (Fin n) (Uuid × String) LogEntry :=
  { published := fun c => (rowsOf c s.committed).map (entryOf rt s.blobs)
    buffered := fun t c =>
      (rowsOf c (s.txs t).draft.inserted).map (entryOf rt s.blobs) }

/-- What a read of a key answers when it has found an entry, or none. -/
def answerOf (key : String) :
    Option LogEntry → Except ArtifactError (Artifact × Content)
  | none => .error (.notFound key)
  | some entry => entry.2.map fun content => (entry.1, content)

/-- A result without the flag of its row. -/
def unflagged (found : Artifact × Content) : Artifact × Content :=
  (Versioned.demote found.1, found.2)

section Entries

variable {rt : Runtime} {blobs blobs' : Blobs} {row : Artifact}
  {rows : List Artifact} {ids : List Uuid}

theorem entryOf_demoteIn :
    entryOf rt blobs (demoteIn ids row) = entryOf rt blobs row := by
  unfold entryOf
  rw [VersionChain.demote_demoteIn]
  unfold demoteIn
  split
  · rfl
  · rfl

theorem map_entryOf_demoteIn :
    (rows.map (demoteIn ids)).map (entryOf rt blobs)
      = rows.map (entryOf rt blobs) := by
  rw [List.map_map]
  exact List.map_congr_left fun row _ => entryOf_demoteIn

/-- Later puts change no entry. -/
theorem entryOf_grow (hgrow : BlobsGrow blobs blobs')
    (h : ∃ content, Holds rt blobs row content) :
    entryOf rt blobs' row = entryOf rt blobs row := by
  obtain ⟨content, h⟩ := h
  unfold entryOf
  congr 1
  unfold Holds at h
  unfold resolvePayload
  cases hstorage : row.storage with
  | inline => rfl
  | blob =>
      rw [hstorage] at h
      obtain ⟨data, ref, -, href, hdata⟩ := h
      simp only [href, hdata, hgrow ref data hdata]

theorem map_entryOf_grow (hgrow : BlobsGrow blobs blobs')
    (h : ∀ row ∈ rows, ∃ content, Holds rt blobs row content) :
    rows.map (entryOf rt blobs') = rows.map (entryOf rt blobs) :=
  List.map_congr_left fun row hrow => entryOf_grow hgrow (h row hrow)

end Entries

-- ===================================================================== reads

section Reads

variable {rt : Runtime} {rows : List Artifact} {blobs : Blobs}
  {c : Uuid × String} {version : Option Nat}

/-- A read of a chain looks an entry up. -/
theorem unflagged_readAt (h : VersionChain.IsChain (rowsOf c rows)) :
    (readAt rt rows blobs version c).map unflagged
      = answerOf c.2 (AppendLog.lookup
        ((rowsOf c rows).map (entryOf rt blobs)) version) := by
  have hfilter : rows.filter (readMatches c.1 (.key c.2) version)
      = (AppendLog.lookup (rowsOf c rows) version).toList := by
    rw [filter_readMatches]
    cases version with
    | none => exact h.flagged
    | some v =>
        cases v with
        | zero =>
            refine List.filter_eq_nil_iff.mpr fun r hr hzero => ?_
            have hpos := (h.linked.version_le hr).1
            have hversion : Versioned.version r = 0 :=
              of_decide_eq_true hzero
            omega
        | succ v => exact h.linked.filter_version v
  rw [AppendLog.lookup_map]
  cases hlookup : AppendLog.lookup (rowsOf c rows) version with
  | none =>
      rw [hlookup] at hfilter
      rw [readAt, read_none hfilter]
      rfl
  | some row =>
      rw [hlookup] at hfilter
      rw [readAt, read_one hfilter]
      simp only [Option.map_some, answerOf, entryOf]
      cases resolvePayload rt blobs row with
      | error e => rfl
      | ok content => rfl

end Reads

-- ===================================================================== steps

/-- The transaction an action is of. -/
def ArtifactAction.tx {n : Nat} : ArtifactAction n → Fin n
  | .call t _ | .statement t _ | .commit t | .rollback t => t

section Steps

variable {n : Nat} {rt : Runtime} {svc : ArtifactService}
  {s s' : ArtifactState n} {t : Fin n}

theorem logOf_goes (h : RowsHave rt svc
      (fun blobs row => ∃ content, Holds rt blobs row content) s)
    {p : WritePoint} {blobs : Blobs} (hgrow : BlobsGrow s.blobs blobs) :
    logOf rt (s.after t (.goes p blobs)) = logOf rt s := by
  have hdraft : ∀ t', ((s.after t (.goes p blobs)).txs t').draft
      = (s.txs t').draft := by
    intro t'
    simp only [ArtifactState.after]
    by_cases ht : t' = t
    · rw [ht, Function.update_self]
    · rw [Function.update_of_ne ht]
  unfold logOf
  simp only [hdraft]
  congr 1
  · funext c
    exact map_entryOf_grow hgrow fun row hrow =>
      h.committed row (VersionChain.mem_rowsOf.mp hrow).1
  · funext t' c
    exact map_entryOf_grow hgrow fun row hrow =>
      h.drafted t' row (VersionChain.mem_rowsOf.mp hrow).1

theorem logOf_rollback :
    logOf rt (s.rollback t) = (logOf rt s).discard t := by
  unfold logOf AppendLog.Store.discard ArtifactState.rollback
  congr 1
  funext t' c
  by_cases ht : t' = t
  · subst ht
    simp only [Function.update_self]
    rfl
  · simp only [Function.update_of_ne ht]

theorem logOf_commit :
    logOf rt (s.commit t) = (logOf rt s).publish t := by
  unfold logOf AppendLog.Store.publish AppendLog.Store.seen
    ArtifactState.commit
  congr 1
  · funext c
    simp only
    rw [VersionChain.Draft.rowsOf_on, List.map_append,
      map_entryOf_demoteIn]
  · funext t' c
    by_cases ht : t' = t
    · subst ht
      simp only [Function.update_self]
      rfl
    · simp only [Function.update_of_ne ht]

/-- An insert is the append of its row. -/
theorem logOf_inserted {row : Artifact} {prior : Option Uuid}
    {origin : Option Origin} :
    logOf rt (s.after t (.inserted row prior origin))
      = (logOf rt s).buffer t (Versioned.cell row)
        (entryOf rt s.blobs row) := by
  unfold logOf AppendLog.Store.buffer ArtifactState.after
  congr 1
  funext t' c
  by_cases ht : t' = t
  · subst ht
    simp only [Function.update_self, Draft.extend]
    rw [VersionChain.rowsOf_append, VersionChain.rowsOf_map_demoteIn,
      List.map_append, map_entryOf_demoteIn]
    by_cases hc : c = Versioned.cell row
    · subst hc
      rw [Function.update_self]
      congr 1
      unfold rowsOf
      simp
    · have hnone : rowsOf c [row] = [] := by
        unfold rowsOf
        simp [Ne.symm hc]
      rw [Function.update_of_ne hc, hnone]
      exact List.append_nil _
  · simp only [Function.update_of_ne ht]

/-- What a step of the service is on the log. -/
def LogStep (a : ArtifactAction n)
    (L L' : AppendLog.Store (Fin n) (Uuid × String) LogEntry) : Prop :=
  match a with
  | .call _ _ => L' = L
  | .statement t _ => L' = L ∨ L' = L.discard t
      ∨ ∃ c entry, L.Free t c ∧ L' = L.buffer t c entry
  | .commit t => L' = L.publish t
  | .rollback t => L' = L.discard t

/-- Every step is one of the log or none. -/
theorem step_logs {G : ArtifactAction n → ArtifactState n → Prop}
    (h : ArtifactReaches rt svc G s) {a : ArtifactAction n}
    (hstep : ArtifactState.step rt svc a s = some s') :
    LogStep a (logOf rt s) (logOf rt s') := by
  have hrows := reaches_rows_have holding_lasts h
  cases a with
  | call t c =>
      simp only [ArtifactState.step] at hstep
      split at hstep
      · injection hstep with hstep
        exact hstep ▸ logOf_goes hrows fun _ _ href => href
      · cases hstep
  | statement t id =>
      obtain ⟨outcome, hs, rfl⟩ := Option.map_eq_some_iff.mp hstep
      cases outcome with
      | goes p blobs =>
          exact Or.inl (logOf_goes hrows (statement_grow hs))
      | raised e => exact Or.inr (Or.inl logOf_rollback)
      | inserted row prior origin =>
          obtain ⟨w, hpoint, rfl, -, hwaits, hviolates⟩ :=
            statement_inserted hs
          have halone := (insertable (reaches_chained h) hpoint hwaits
            hviolates).alone
          refine Or.inr (Or.inr ⟨_, _, fun t' ht => ?_, logOf_inserted⟩)
          -- no other draft has a row in the cell
          refine List.map_eq_nil_iff.mpr
            (List.filter_eq_nil_iff.mpr fun r hr hcell => ?_)
          exact (halone t' ht r hr).2 (of_decide_eq_true hcell)
  | commit t =>
      simp only [ArtifactState.step] at hstep
      split at hstep
      · injection hstep with hstep
        exact hstep ▸ logOf_commit
      · cases hstep
  | rollback t =>
      injection hstep with hstep
      exact hstep ▸ logOf_rollback

/-- In terms of the steps of logs. -/
theorem LogStep.step {a : ArtifactAction n}
    {L L' : AppendLog.Store (Fin n) (Uuid × String) LogEntry}
    (h : LogStep a L L') : L' = L ∨ AppendLog.Step a.tx L L' := by
  cases a with
  | call t c => exact Or.inl h
  | statement t id =>
      rcases h with rfl | rfl | ⟨c, entry, hfree, rfl⟩
      · exact Or.inl rfl
      · exact Or.inr .discard
      · exact Or.inr (.buffer c entry hfree)
  | commit t => exact Or.inr (h ▸ .publish)
  | rollback t => exact Or.inr (h ▸ .discard)

/-- A run of the service is one of the log, of the same transactions. -/
theorem run_logs {p : Fin n → Prop} (h : ArtifactReaches rt svc Lts.Always s)
    (hrun : Lts.Reachable (ArtifactState.step rt svc)
      (fun a _ => p a.tx) s s') :
    AppendLog.Steps p (logOf rt s) (logOf rt s') := by
  refine Lts.Reachable.simulates (logOf rt) (fun s₁ a s₂ hr hp hstep => ?_)
    hrun
  have hr₁ := h.trans (hr.mono fun _ _ _ => trivial)
  rcases (step_logs hr₁ hstep).step with hsame | hlog
  · rw [hsame]
  · exact .single ⟨a.tx, hp, hlog⟩

/-- The steps of the others leave a transaction where it is. -/
theorem tx_of_others (h : Lts.Reachable (ArtifactState.step rt svc)
      (fun a _ => a.tx ≠ t) s s') : s'.txs t = s.txs t := by
  refine Lts.Reachable.invariant
    (P := fun s' : ArtifactState n => s'.txs t = s.txs t) rfl
    (fun s₁ a s₂ _ hs ht hstep => Eq.trans ?_ hs) h
  have hother : ∀ tx, Function.update s₁.txs a.tx tx t = s₁.txs t :=
    fun tx => Function.update_of_ne (Ne.symm ht) tx s₁.txs
  cases a with
  | call t' c =>
      simp only [ArtifactState.step] at hstep
      split at hstep
      · injection hstep with hstep
        exact hstep ▸ hother _
      · cases hstep
  | statement t' id =>
      obtain ⟨outcome, -, rfl⟩ := Option.map_eq_some_iff.mp hstep
      cases outcome with
      | goes p blobs => exact hother _
      | inserted row prior origin => exact hother _
      | raised e => exact hother _
  | commit t' =>
      simp only [ArtifactState.step] at hstep
      split at hstep
      · injection hstep with hstep
        exact hstep ▸ hother _
      · cases hstep
  | rollback t' =>
      injection hstep with hstep
      exact hstep ▸ hother _

theorem logOf_apart (h : ArtifactReaches rt svc Lts.Always s) :
    (logOf rt s).Apart := by
  intro t c hne t' ht
  have hsome : rowsOf c (s.txs t).draft.inserted ≠ [] := fun hnil =>
    hne (congrArg (List.map (entryOf rt s.blobs)) hnil)
  have hnone := (reaches_chained h).drafts.exclusive ht.symm hsome
  exact congrArg (List.map (entryOf rt s.blobs)) hnone

/-- Reads of what is committed. -/
theorem read_of_log (h : ArtifactReaches rt svc Lts.Always s)
    (c : Uuid × String) (version : Option Nat) :
    (readAt rt s.committed s.blobs version c).map unflagged
      = answerOf c.2
        (AppendLog.lookup ((logOf rt s).published c) version) :=
  unflagged_readAt ((reaches_chained h).drafts.committed c)

/-- Reads by an open transaction, at any point but between a demotion and
the insert it is for. -/
theorem view_of_log (h : ArtifactReaches rt svc Lts.Always s)
    (hpoint : (s.txs t).point.demoted = []) (c : Uuid × String)
    (version : Option Nat) :
    (readAt rt ((s.txs t).view s.committed) s.blobs version c).map unflagged
      = answerOf c.2
        (AppendLog.lookup ((logOf rt s).seen t c) version) := by
  have hseen : (rowsOf c ((s.txs t).draft.on s.committed)).map
      (entryOf rt s.blobs) = (logOf rt s).seen t c := by
    rw [VersionChain.Draft.rowsOf_on, List.map_append,
      map_entryOf_demoteIn]
    rfl
  rw [view_of_not_demoted hpoint, ← hseen]
  exact unflagged_readAt ((reaches_chained h).drafts.chains t c)

end Steps

-- ================================================================ refinement

/-- The artifact table and its open transactions are an append-only log:
no step but those of the log, and reads look entries up. -/
theorem store_refines_log {n : Nat} {rt : Runtime} {svc : ArtifactService}
    {s : ArtifactState n} (h : ArtifactReaches rt svc Lts.Always s) :
    (logOf rt s).Apart
      ∧ (∀ a s', ArtifactState.step rt svc a s = some s' →
        LogStep a (logOf rt s) (logOf rt s'))
      ∧ (∀ sid key version,
        (read rt s.committed s.blobs sid (.key key) version).map unflagged
          = answerOf key (AppendLog.lookup
            ((logOf rt s).published (sid, key)) version))
      ∧ ∀ t, (s.txs t).point.demoted = [] → ∀ sid key version,
        (read rt ((s.txs t).view s.committed) s.blobs sid (.key key)
          version).map unflagged
          = answerOf key (AppendLog.lookup
            ((logOf rt s).seen t (sid, key)) version) :=
  ⟨logOf_apart h, fun _ _ hstep => step_logs h hstep,
    fun sid key version => read_of_log h (sid, key) version,
    fun _ hpoint sid key version => view_of_log h hpoint (sid, key) version⟩

/-- So it is between the two commits of `racingWrites`. -/
theorem racing_writes_log :
    ∃ s : ArtifactState 2, s.committed.length = 1
      ∧ (logOf Runtime.sample s).Apart
      ∧ ∀ sid key version,
        (read Runtime.sample s.committed s.blobs sid (.key key)
          version).map unflagged
          = answerOf key (AppendLog.lookup
            ((logOf Runtime.sample s).published (sid, key)) version) := by
  have hrun : (Lts.run (ArtifactState.step Runtime.sample
      ArtifactService.default) (.init 2) (racingWrites.take 8)).map
      (fun s => s.committed.length) = some 1 := by
    decide +kernel
  obtain ⟨s, hs, hlength⟩ := Option.map_eq_some_iff.mp hrun
  have hlog := store_refines_log (Lts.reachable_of_run .init hs)
  exact ⟨s, hlength, hlog.1, hlog.2.2.1⟩

/-- Whatever happens later, a version that was read reads as it did. -/
theorem versions_last {n : Nat} {rt : Runtime} {svc : ArtifactService}
    {s s' : ArtifactState n} (h : ArtifactReaches rt svc Lts.Always s)
    (h' : Lts.Reachable (ArtifactState.step rt svc) Lts.Always s s')
    {sid : Uuid} {key : String} {version : Option Nat} {row : Artifact}
    {content : Content}
    (hread : read rt s.committed s.blobs sid (.key key) version
      = .ok (row, content)) :
    ∃ row', read rt s'.committed s'.blobs sid (.key key) (some row.version)
        = .ok (row', content)
      ∧ Versioned.demote row' = Versioned.demote row := by
  obtain ⟨hfilter, hcontent⟩ := read_ok hread
  have hchain := (reaches_chained h).drafts.committed (sid, key)
  -- the row is under its number
  have hrow : row ∈ rowsOf (sid, key) s.committed := by
    have hmem : row ∈ s.committed.filter
        (readMatches (sid, key).1 (.key (sid, key).2) version) :=
      hfilter ▸ List.mem_singleton_self row
    rw [filter_readMatches] at hmem
    exact List.mem_of_mem_filter hmem
  obtain ⟨v, hv⟩ : ∃ v, row.version = v + 1 :=
    ⟨row.version - 1, (Nat.sub_add_cancel
      (hchain.linked.version_le hrow).1).symm⟩
  have hat : (rowsOf (sid, key) s.committed)[v]? = some row := by
    have hmem : row ∈ (rowsOf (sid, key) s.committed).filter
        (fun x => Versioned.version x = v + 1) :=
      List.mem_filter.mpr ⟨hrow, decide_eq_true hv⟩
    rw [hchain.linked.filter_version] at hmem
    exact Option.mem_toList.mp hmem
  have hentry : AppendLog.lookup ((logOf rt s).published (sid, key))
      (some (v + 1)) = some (Versioned.demote row, .ok content) := by
    refine (AppendLog.lookup_map _ (some (v + 1))).trans ?_
    show ((rowsOf (sid, key) s.committed)[v]?).map _ = _
    rw [hat, ← hcontent]
    rfl
  -- and stays there
  have hkept := AppendLog.lookup_grows
    ((run_logs (p := fun _ => True) h h').published_grows (sid, key))
    hentry
  have hread' := read_of_log (h.trans h') (sid, key) (some (v + 1))
  rw [hkept] at hread'
  cases hfound : readAt rt s'.committed s'.blobs (some (v + 1))
      (sid, key) with
  | error e =>
      rw [hfound] at hread'
      cases hread'
  | ok found =>
      rw [hfound] at hread'
      injection hread' with hread'
      injection hread' with hdemote hcontent'
      refine ⟨found.1, ?_, hdemote⟩
      rw [hv, ← hcontent']
      exact hfound

/-- The first of the two racing writes can still be read after the
second. -/
theorem racing_version_lasts :
    ∃ (s s' : ArtifactState 2) (row row' : Artifact),
      read Runtime.sample s.committed s.blobs 10 (.key "plan/a") none
        = .ok (row, .value (.int 1))
      ∧ s'.committed.length = 2
      ∧ read Runtime.sample s'.committed s'.blobs 10 (.key "plan/a")
        (some row.version) = .ok (row', .value (.int 1)) := by
  have hrun : ((Lts.run (ArtifactState.step Runtime.sample
      ArtifactService.default) (.init 2) (racingWrites.take 8)).bind
      fun s => (Lts.run (ArtifactState.step Runtime.sample
        ArtifactService.default) s (racingWrites.drop 8)).map fun s' =>
          ((read Runtime.sample s.committed s.blobs 10 (.key "plan/a")
            none).map (·.2), s'.committed.length))
      = some (.ok (.value (.int 1)), 2) := by
    decide +kernel
  obtain ⟨s, hs, hrun⟩ := Option.bind_eq_some_iff.mp hrun
  obtain ⟨s', hs', heq⟩ := Option.map_eq_some_iff.mp hrun
  obtain ⟨hread, hlength⟩ := Prod.mk.inj heq
  cases hfound : read Runtime.sample s.committed s.blobs 10
      (.key "plan/a") none with
  | error e =>
      rw [hfound] at hread
      cases hread
  | ok found =>
      rw [hfound] at hread
      have hcontent : found.2 = .value (.int 1) := Except.ok.inj hread
      obtain ⟨row', hread', -⟩ := versions_last
        (Lts.reachable_of_run .init hs) (Lts.reachable_of_run .init hs')
        hfound
      rw [hcontent] at hread'
      refine ⟨s, s', found.1, row', ?_, hlength, hread'⟩
      rw [← hcontent]
      exact hfound

/-- What a transaction reads under a key it has written to is what it
has written, until it ends. -/
theorem own_writes_last {n : Nat} {rt : Runtime} {svc : ArtifactService}
    {s s' : ArtifactState n} {t : Fin n}
    (h : ArtifactReaches rt svc Lts.Always s)
    (h' : Lts.Reachable (ArtifactState.step rt svc)
      (fun a _ => a.tx ≠ t) s s')
    (hpoint : (s.txs t).point.demoted = []) {r : Artifact}
    (hr : r ∈ (s.txs t).draft.inserted) (version : Option Nat) :
    (read rt ((s'.txs t).view s'.committed) s'.blobs r.sessionId
        (.key r.key) version).map unflagged
      = (read rt ((s.txs t).view s.committed) s.blobs r.sessionId
        (.key r.key) version).map unflagged := by
  have htx := tx_of_others h'
  have hrun := h.trans (h'.mono fun _ _ _ => trivial)
  have hne : (logOf rt s).buffered t (r.sessionId, r.key) ≠ [] :=
    List.ne_nil_of_mem (List.mem_map_of_mem
      (VersionChain.mem_rowsOf.mpr ⟨hr, rfl⟩))
  have hseen := ((run_logs (p := (· ≠ t)) h h').seen_stable
    (logOf_apart h) hne).2
  have hview' := view_of_log (t := t) hrun (by rw [htx]; exact hpoint)
    (r.sessionId, r.key) version
  rw [hseen] at hview'
  exact hview'.trans
    (view_of_log h hpoint (r.sessionId, r.key) version).symm

/-- The first racing transaction, before its commit, while the second
stores its payload. -/
theorem racing_write_seen :
    ∃ (s s' : ArtifactState 2) (r : Artifact),
      r ∈ (s.txs 0).draft.inserted ∧ s'.txs 1 ≠ s.txs 1
      ∧ ∀ version, (read Runtime.sample ((s'.txs 0).view s'.committed)
          s'.blobs r.sessionId (.key r.key) version).map unflagged
        = (read Runtime.sample ((s.txs 0).view s.committed) s.blobs
          r.sessionId (.key r.key) version).map unflagged := by
  have hrun : ((Lts.run (ArtifactState.step Runtime.sample
      ArtifactService.default) (.init 2) (racingWrites.take 7)).bind
      fun s => (ArtifactState.step Runtime.sample ArtifactService.default
        (.statement 1 2) s).map fun s' =>
          ((s.txs 0).draft.inserted.length, (s.txs 0).point.demoted,
            decide ((s.txs 1).point = (s'.txs 1).point)))
      = some (1, [], false) := by
    decide +kernel
  obtain ⟨s, hs, hrun⟩ := Option.bind_eq_some_iff.mp hrun
  obtain ⟨s', hs', heq⟩ := Option.map_eq_some_iff.mp hrun
  simp only [Prod.mk.injEq, decide_eq_false_iff_not] at heq
  obtain ⟨hlength, hpoint, hmoved⟩ := heq
  obtain ⟨r, hr⟩ := List.length_pos_iff_exists_mem.mp
    (by rw [hlength]; decide)
  have hothers : Lts.Reachable (ArtifactState.step Runtime.sample
      ArtifactService.default) (fun a _ => a.tx ≠ 0) s s' :=
    .step (.statement 1 2) .init (by decide) hs'
  exact ⟨s, s', r, hr, fun heq => hmoved (by rw [heq]),
    own_writes_last (Lts.reachable_of_run .init hs) hothers hpoint hr⟩

end LegalBot
