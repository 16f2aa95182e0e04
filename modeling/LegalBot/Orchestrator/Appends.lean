/-
What the transactions of the orchestration add to the transcripts.

# One transaction

`Tx.appends` is what a transaction adds to the transcript of a session,
as a function of the transaction; `TranscriptGrows` says that the rows changed
by that and stayed numbered. A projection reads each index in its own
transaction. A post and a reminder have read theirs before
(`Tx.readIndex`), when it was the next one; since rows are only added,
it has become stale or is the next one still, and the unique index tells
the two apart.

# Whole runs

`Ordered` is the invariant: the rows of every session are numbered, and
an index an actor carries is at most the next one. The transcript then
changes, step by step, by what the committed transactions append
(`apply_grows`).
-/
import LegalBot.Orchestrator.Invariants
import LegalBot.Services.Transcript

namespace LegalBot

open Relational (HasKey Table)

-- ============================================================= transactions

/-- What the transcript keeps of an append: its run, role and content. -/
abbrev Entry := Option Uuid × String × String

def SessionMessage.entry (m : SessionMessage) : Entry :=
  (m.runId, m.role, m.content)

/-- What a transaction adds to the transcript of a session. -/
def Tx.appends (sid : Uuid) : Tx → List Entry
  | .writeProjection sid' rid output _ =>
      if sid' = sid then (projectedMessages output).map fun m => (some rid, m)
      else []
  | .postMessage sid' content _ _ _ =>
      if sid' = sid then [(none, "user", content)] else []
  | .handleReminder sid' message _ _ _ _ _ =>
      if sid' = sid then [(none, "system", message)] else []
  | _ => []

/-- The transactions that write to a transcript. -/
def Tx.writesTranscript : Tx → Bool
  | .writeProjection .. | .postMessage .. | .handleReminder .. => true
  | _ => false

theorem appends_of_writesTranscript {tx : Tx}
    (h : tx.writesTranscript = false) (sid : Uuid) : tx.appends sid = [] := by
  cases tx with
  | _ => first | rfl | cases h

/-- The session a transaction writes to at an index read before. -/
def Tx.readIndex : Tx → Option (Uuid × Int)
  | .postMessage sid _ index _ _ => some (sid, index)
  | .handleReminder sid _ _ _ index _ _ => some (sid, index)
  | _ => none

/-- An index that was the next one, in these rows or in fewer. -/
def IndexRead (rows : List SessionMessage) (sid : Uuid) (index : Int) :
    Prop := 0 ≤ index ∧ index ≤ (sessionRows rows sid).length

/-- Every session has gained some entries, and is numbered still. -/
structure TranscriptGrows (rows rows' : List SessionMessage)
    (added : Uuid → List Entry) : Prop where
  numbered : ∀ sid, RowsNumbered rows' sid
  entries : ∀ sid, (sessionRows rows' sid).map SessionMessage.entry
    = (sessionRows rows sid).map SessionMessage.entry ++ added sid

section Appends

variable {cfg : Settings} {now : Time} {db db' : Db} {sid : Uuid}
  {rows rows' : List SessionMessage}

theorem TranscriptGrows.refl (h : ∀ sid, RowsNumbered rows sid) :
    TranscriptGrows rows rows fun _ => [] :=
  ⟨h, fun _ => (List.append_nil _).symm⟩

theorem TranscriptGrows.trans {rows'' : List SessionMessage}
    {added added' : Uuid → List Entry} (h : TranscriptGrows rows rows' added)
    (h' : TranscriptGrows rows' rows'' added') :
    TranscriptGrows rows rows'' fun sid => added sid ++ added' sid := by
  refine ⟨h'.numbered, fun sid => ?_⟩
  rw [h'.entries, h.entries, List.append_assoc]

/-- An index read before is in range still. -/
theorem TranscriptGrows.indexRead {added : Uuid → List Entry} {index : Int}
    (h : TranscriptGrows rows rows' added) (hi : IndexRead rows sid index) :
    IndexRead rows' sid index := by
  have hlength := congrArg List.length (h.entries sid)
  simp only [List.length_append, List.length_map] at hlength
  obtain ⟨h₀, hle⟩ := hi
  exact ⟨h₀, by omega⟩

/-- The next index, as it is read. -/
theorem indexRead_next (messages : Table SessionMessage)
    (h : RowsNumbered messages.rows sid) :
    IndexRead messages.rows sid (nextMessageIndex messages sid) := by
  rw [nextMessageIndex_eq, nextIndexOf_eq h]
  exact ⟨Int.natCast_nonneg _, Int.le_refl _⟩

/-- An insert at an index read before. -/
theorem appendMessageAt_grows {id : Uuid} {role content : String}
    {rid : Option Uuid} {index : Int}
    (hnum : ∀ sid, RowsNumbered db.messages.rows sid)
    (hindex : IndexRead db.messages.rows sid index)
    (h : appendMessageAt db now id sid role content rid index = some db') :
    TranscriptGrows db.messages.rows db'.messages.rows fun sid' =>
      if sid = sid' then [(rid, role, content)] else [] := by
  unfold appendMessageAt at h
  split at h
  · cases h
  rename_i hany
  obtain ⟨messages, hins, rfl⟩ := Option.map_eq_some_iff.mp h
  have hrows := Table.insert_rows hins
  have hfree : ¬ ∃ m ∈ sessionRows db.messages.rows sid,
      m.messageIndex = index := by
    rintro ⟨m, hm, hk⟩
    obtain ⟨hmem, hsid⟩ := List.mem_filter.mp hm
    refine hany (List.any_eq_true.mpr ⟨m, hmem, ?_⟩)
    simpa [hk] using hsid
  have hnext := Numbered.eq_length_of_free (hnum sid) hindex.1 hindex.2 hfree
  show TranscriptGrows db.messages.rows messages.rows _
  rw [hrows]
  refine ⟨fun sid' => ?_, fun sid' => ?_⟩
  · unfold RowsNumbered
    rw [sessionRows_append]
    by_cases hsid : sid = sid'
    · subst hsid
      simp only [sessionRows, List.filter_cons, decide_true, if_true,
        List.filter_nil]
      exact (hnum sid).snoc hnext
    · have hnone : sessionRows [(⟨id, sid, rid, role, content, index⟩ :
          SessionMessage)] sid' = [] := by simp [sessionRows, hsid]
      rw [hnone, List.append_nil]
      exact hnum sid'
  · rw [sessionRows_append, List.map_append]
    by_cases hsid : sid = sid'
    · rw [if_pos hsid]
      simp [sessionRows, hsid, SessionMessage.entry]
    · rw [if_neg hsid]
      simp [sessionRows, hsid]

/-- The loop of a projection. -/
theorem appendProjected_grows {rid : Uuid} :
    ∀ {msgs : List (Uuid × String × String)} {db db' : Db},
      (∀ sid, RowsNumbered db.messages.rows sid) →
      appendProjected now sid rid msgs db = some db' →
      TranscriptGrows db.messages.rows db'.messages.rows fun sid' =>
        if sid = sid' then msgs.map fun m => (some rid, m.2) else [] := by
  intro msgs
  induction msgs with
  | nil =>
      intro db db' hnum h
      injection h with h
      subst h
      simpa using TranscriptGrows.refl hnum
  | cons m rest ih =>
      intro db db' hnum h
      obtain ⟨id, role, content⟩ := m
      unfold appendProjected at h
      cases ha : appendMessage db now id sid role content (some rid) with
      | none => simp [ha] at h
      | some db₁ =>
          rw [ha] at h
          have hfirst := appendMessageAt_grows hnum
            (indexRead_next db.messages (hnum sid)) ha
          have hboth := hfirst.trans (ih hfirst.numbered h)
          refine ⟨hboth.numbered, fun sid' => ?_⟩
          rw [hboth.entries]
          by_cases hsid : sid = sid'
          · simp [hsid]
          · simp [hsid]

/-- Every other transaction leaves the transcripts alone. -/
theorem commit_messages {tx : Tx} (h : tx.commit cfg now db = .ok db')
    (htx : tx.writesTranscript = false) : db'.messages = db.messages := by
  cases tx with
  | writeProjection sid' rid output ids => cases htx
  | postMessage sid' content index id rid => cases htx
  | handleReminder sid' message wake payload index id rid => cases htx
  | upsert mapped owner itemId jobId ids =>
      rcases upsert_ok h with rfl | ⟨_, _, _, jobs, -, rfl⟩
      · exact rfl
      · exact rfl
  | dispatchOnce limit locked =>
      injection h with h
      exact h ▸ rfl
  | reapStuck =>
      injection h with h
      exact h ▸ rfl
  | retry job =>
      obtain ⟨jobs, -, rfl⟩ := withJobs_ok h
      exact rfl
  | cancel job reason =>
      obtain ⟨jobs, -, rfl⟩ := withJobs_ok h
      exact rfl
  | archive job =>
      obtain ⟨jobs, -, rfl⟩ := withJobs_ok h
      exact rfl
  | markFailed j f error errorKind =>
      obtain ⟨jobs, -, rfl⟩ := withJobs_ok h
      exact rfl
  | startPipeline j sid rid hex =>
      obtain ⟨_, _, _, _, -, -, -, -, rfl⟩ := startPipeline_ok h
      exact rfl
  | resumeTransition rid =>
      obtain ⟨run, session, job, -, -, -, rfl⟩ := resumeTransition_ok h
      split
      · exact rfl
      · exact rfl
  | markRunStatus rid st =>
      obtain ⟨run, -, rfl⟩ := markRunStatus_ok h
      exact rfl
  | finalizeJob sid rid =>
      obtain ⟨run, -, ⟨-, rfl⟩ | ⟨-, session, jobs, -, -, rfl⟩⟩ :=
        finalizeJobIfPrimary_ok h
      · exact rfl
      · exact rfl
  | failJob rid exc =>
      obtain ⟨run, -, ⟨-, rfl⟩ | ⟨-, rfl⟩⟩ :=
        failPipelineJobForGraphError_ok h
      · exact rfl
      · exact rfl
  | pauseJob sid rid =>
      obtain ⟨run, -, ⟨-, rfl⟩ | ⟨-, session, -, rfl⟩⟩ :=
        transitionPipelineJob_ok h
      · exact rfl
      · exact rfl
  | openInterrupt id sid rid kind payload schema =>
      obtain ⟨interrupts, -, rfl⟩ :=
        Option.map_eq_some_iff.mp (flushed_ok.mp h)
      exact rfl
  | resolve sid current resolution resolvedBy iid =>
      obtain ⟨interventions, -, rfl⟩ :=
        Option.map_eq_some_iff.mp (flushed_ok.mp h)
      exact rfl
  | expireStalled =>
      injection h with h
      exact h ▸ rfl
  | replay sid fromRun step ctx cp childId rid hex =>
      obtain ⟨_, _, _, _, -, -, -, rfl⟩ := replay_ok h
      exact rfl
  | cancelActiveRun sid locked =>
      injection h with h
      exact h ▸ rfl
  | archiveSession sid =>
      injection h with h
      exact h ▸ rfl

/-- A committed transaction adds what it appends, if the index it read is
in range. -/
theorem commit_grows {tx : Tx} (h : tx.commit cfg now db = .ok db')
    (hnum : ∀ sid, RowsNumbered db.messages.rows sid)
    (hindex : ∀ sid index, tx.readIndex = some (sid, index) →
      IndexRead db.messages.rows sid index) :
    TranscriptGrows db.messages.rows db'.messages.rows
      fun sid => tx.appends sid := by
  cases htx : tx.writesTranscript with
  | false =>
      rw [commit_messages h htx]
      simpa [appends_of_writesTranscript htx]
        using TranscriptGrows.refl hnum
  | true =>
      cases tx with
      | writeProjection sid' rid output ids =>
          obtain ⟨hids, happend⟩ := writeSessionProjection_appends h
          have hgrows := appendProjected_grows hnum happend
          have hsnd : (ids.zip (projectedMessages output)).map
              (fun m => ((some rid, m.2) : Entry))
              = (projectedMessages output).map fun m => (some rid, m) := by
            conv_rhs => rw [← List.map_snd_zip hids]
            rw [List.map_map]
            rfl
          rw [hsnd] at hgrows
          exact hgrows
      | postMessage sid' content index id rid =>
          unfold Tx.commit postMessage at h
          simp only [bind_ok, scalarOne_ok, flushed_ok, pure_ok] at h
          obtain ⟨session, -, db₁, hdb₁, runs, -, rfl⟩ := h
          have hgrows :=
            appendMessageAt_grows hnum (hindex sid' index rfl) hdb₁
          exact hgrows
      | handleReminder sid' message wake payload index id rid =>
          unfold Tx.commit handleReminder at h
          obtain ⟨db₁, hdb₁, h⟩ := bind_ok.mp h
          rw [flushed_ok] at hdb₁
          have hgrows :=
            appendMessageAt_grows hnum (hindex sid' index rfl) hdb₁
          cases wake with
          | false =>
              obtain rfl := pure_ok.mp h
              exact hgrows
          | true =>
              simp only [bind_ok, scalarOne_ok, flushed_ok, pure_ok,
                if_true] at h
              obtain ⟨session, -, runs, -, rfl⟩ := h
              exact hgrows
      | _ => cases htx

end Appends

-- =============================================================== whole runs

/-- The transaction a step commits. -/
def committed (env : Env) (a : Action) (s : State) : Option Tx :=
  (committing env a s).filter fun tx =>
    (tx.commit env.cfg s.now s.db).isOk

/-- The index an actor has read and will insert at. -/
def Handler.readIndex : Handler → Option (Uuid × Int)
  | .postMessageInsert sid _ index => some (sid, index)
  | .reminderInsert sid _ _ _ index => some (sid, index)
  | _ => none

/-- The transcripts are numbered, and the indices actors carry are the
next ones or stale. -/
structure Ordered (s : State) : Prop where
  numbered : ∀ sid, RowsNumbered s.db.messages.rows sid
  indices : ∀ tid hd, (s.tasks tid).pc = .handler hd →
    ∀ sid index, hd.readIndex = some (sid, index) →
    IndexRead s.db.messages.rows sid index

section Runs

variable {env : Env} {s s' : State} {a : Action}

/-- What a step does to the database, by the transaction it commits. -/
theorem apply_committedTx (h : apply env a s = some s') :
    match committed env a s with
    | some tx => tx.commit env.cfg s.now s.db = .ok s'.db
    | none => s'.db = s.db := by
  unfold committed
  cases hc : committing env a s with
  | none =>
      rcases apply_db h with ⟨hdb, -, -⟩ | ⟨tx, htx, -⟩
      · exact hdb
      · rw [htx] at hc
        cases hc
  | some tx =>
      cases hdb : tx.commit env.cfg s.now s.db with
      | ok db =>
          simp only [Option.filter, hdb, Except.isOk, Except.toBool, if_true]
          rw [(apply_commits h hc hdb).1]
      | error e =>
          simp only [Option.filter, hdb, Except.isOk, Except.toBool]
          rcases apply_db h with
            ⟨hkept, -, -⟩ | ⟨tx', htx', ⟨hkept, -⟩ | ⟨hok, -⟩⟩
          · exact hkept
          · exact hkept
          · obtain rfl := Option.some.inj (hc.symm.trans htx')
            rw [hdb] at hok
            cases hok

/-- An index is carried by the actor that has just read it. -/
theorem Handler.request_readIndex {now : Time} {db : Db}
    {inFlight : Finset Uuid} {reply : Reply} {hd hd' : Handler}
    {r : Request Handler} {run : Tx → Except TxError Db} {sid : Uuid}
    {index : Int}
    (hr : hd.request env now db inFlight reply = some r)
    (hl : r.landing run = hd')
    (hi : hd'.readIndex = some (sid, index)) :
    index = nextMessageIndex db.messages sid := by
  cases hd with
  | postMessageIndex sid₀ content₀ =>
      injection hr with hr
      subst hr
      subst hl
      injection hi with hi
      cases hi
      rfl
  | reminder sid₀ message₀ wake payload =>
      injection hr with hr
      subst hr
      subst hl
      injection hi with hi
      cases hi
      rfl
  | _ =>
      unfold Handler.request at hr
      grind [Request.landing, afterResolve, Handler.readIndex]

/-- A transaction inserts at the index its actor carries. -/
theorem Handler.commit_readIndex {now : Time} {db : Db}
    {inFlight : Finset Uuid} {reply : Reply} {hd : Handler} {tx : Tx}
    {ok : Handler} {raised : String → Handler}
    (hr : hd.request env now db inFlight reply
      = some (.commit tx ok raised)) {k : Uuid × Int}
    (hk : tx.readIndex = some k) : hd.readIndex = some k := by
  cases hd with
  | postMessageInsert sid content index =>
      unfold Handler.request at hr
      grind [Tx.readIndex, Handler.readIndex]
  | reminderInsert sid message wake payload index =>
      unfold Handler.request at hr
      grind [Tx.readIndex, Handler.readIndex]
  | _ =>
      unfold Handler.request at hr
      grind [Tx.readIndex]

theorem byHandler_of_readIndex {tx : Tx} {k : Uuid × Int}
    (h : tx.readIndex = some k) : tx.byHandler = true := by
  cases tx with
  | _ => first | rfl | cases h

/-- The transcripts change by what the step commits. -/
theorem apply_grows (hs : Ordered s) (h : apply env a s = some s') :
    TranscriptGrows s.db.messages.rows s'.db.messages.rows fun sid =>
      (committed env a s).elim [] (Tx.appends sid) := by
  have hcommit := apply_committedTx h
  cases hc : committed env a s with
  | none =>
      rw [hc] at hcommit
      simp only at hcommit
      rw [hcommit]
      exact TranscriptGrows.refl hs.numbered
  | some tx =>
      rw [hc] at hcommit
      refine commit_grows hcommit hs.numbered fun sid index hi => ?_
      have hcommitting : committing env a s = some tx :=
        (Option.filter_eq_some_iff.mp hc).1
      obtain ⟨tid, reply, hd, ok, raised, -, hpc, hr⟩ :=
        committing_handler hcommitting (byHandler_of_readIndex hi)
      exact hs.indices tid hd hpc sid index
        (Handler.commit_readIndex hr hi)

theorem apply_ordered (hs : Ordered s) (h : apply env a s = some s') :
    Ordered s' := by
  have hgrows := apply_grows hs h
  refine ⟨hgrows.numbered, fun tid hd hpc sid index hi => ?_⟩
  refine hgrows.indexRead ?_
  have hinner : hd.isEntry = false ∧ hd ≠ .done := by
    cases hd with
    | _ => first | exact ⟨rfl, Handler.noConfusion⟩ | cases hi
  rcases apply_handler h hpc hinner.1 hinner.2 with
    heq | ⟨reply, hd₀, r, -, -, hr, -, -, hl⟩
  · rw [heq] at hpc
    exact hs.indices tid hd hpc sid index hi
  · rw [Handler.request_readIndex hr hl hi]
    exact indexRead_next s.db.messages (hs.numbered sid)

theorem init_ordered : Ordered State.init where
  numbered _ := Numbered.from_nil 0
  indices _ _ hpc _ _ hi := by
    cases hpc
    cases hi

theorem reaches_ordered {G : Action → State → Prop}
    (h : Reaches env G s) : Ordered s :=
  h.invariant init_ordered fun _ _ _ _ hs _ hstep => apply_ordered hs hstep

end Runs

end LegalBot
