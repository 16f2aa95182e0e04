/-
The recursion limit of the extract stage.

# What gets lost

`_recursion_limit` reads `has_attachments` and `attachment_count` from
the state. The first is a channel of the graph, the second is not: the
worker counts and passes it, the graph drops it (`takeInput_uncounted`),
and the stage counts no attachments whatever the email has. A call that
resumes, replays or starts a job brings `has_attachments`; a follow-up
brings nothing and depends on what the thread has from earlier calls.

# The invariant

`Informed` says what a call knows throughout: never a count, and
`has_attachments` as the email has it if the call brought it or found it
(`Knows`). `stage_budget_iff` reads the limit off it: the small one is
given to every email with attachments.
-/
import LegalBot.Agents.Subagents
import LegalBot.Proofs.TenantReads
import LegalBot.Workers.GraphThread

namespace LegalBot

open Json (getMember setMember getMember_setMember)

-- ============================================================== statements

/-- The limit that `_recursion_limit` has for an email with that many
attachments. -/
def prescribedLimit (limits : StageLimits) (count : Nat) : Int :=
  if count = 0 then limits.extractNone
  else if count ≤ 2 then limits.extractSmall
  else limits.extractLarge

/-- Every extract stage that a call of the graph invokes gets this
limit. -/
def BudgetMatches (rt : Runtime) (limits : StageLimits)
    (parse : Json → Option Int) (count : Nat) (c : GraphCall) : Prop :=
  ∀ config attemptId, ∃ bound,
    stageConfig rt limits parse .extract c.values config attemptId
      = some bound
    ∧ bound.recursionLimit = some (prescribedLimit limits count)

/-- The task passes `has_attachments`. -/
def GraphEntry.brings : GraphEntry → Prop
  | .continueSession _ => False
  | _ => True

/-- The call brought `has_attachments`, or the checkpoint has it. -/
def GraphCall.Knows (c : GraphCall) : Prop :=
  c.entry.brings
    ∨ ∃ b, getMember c.found "has_attachments" = some (.bool b)

/-- The calls that get the limit of their email: those for one or two
attachments, for none if the call knows that there are none, and those
for which the limits that are mixed up are equal. -/
def BudgetKept (limits : StageLimits) (count : Nat) (c : GraphCall) :
    Prop :=
  (count = 0 → c.Knows ∨ limits.extractNone = limits.extractSmall)
    ∧ (2 < count → limits.extractLarge = limits.extractSmall)

-- ================================================================= lookups

section Lookups

variable {d : List (String × Json)} {k : String}

theorem getMember_declared : getMember (declared d) k
    = if k ∈ legalEmailStateKeys then getMember d k else none := by
  induction d with
  | nil => simp [declared, Json.getMember_nil]
  | cons m rest ih =>
      unfold declared at ih ⊢
      by_cases hm : m.1 ∈ legalEmailStateKeys
      · rw [List.filter_cons_of_pos (by simpa using hm),
          Json.getMember_cons, Json.getMember_cons, ih]
        by_cases hk : m.1 = k
        · rw [if_pos hk, if_pos hk, if_pos (hk ▸ hm)]
        · rw [if_neg hk, if_neg hk]
      · rw [List.filter_cons_of_neg (by simpa using hm), ih,
          Json.getMember_cons]
        by_cases hk : m.1 = k
        · rw [if_neg (hk ▸ hm), if_neg (hk ▸ hm)]
        · rw [if_neg hk]

end Lookups

-- ================================================================== inputs

section Inputs

variable {checkpoint : List (String × Json)} {input : InitialState}

/-- The count of an input is dropped. -/
theorem takeInput_uncounted :
    getMember (takeInput checkpoint input) "attachment_count" = none := by
  unfold takeInput
  rw [getMember_setMember, if_neg (by decide),
    Json.getMember_assignAll_other, getMember_declared,
    if_neg (by decide)]
  intro hmem
  obtain ⟨m, hm, hkey⟩ := List.mem_map.mp hmem
  have hdeclared := of_decide_eq_true (List.mem_filter.mp hm).2
  rw [hkey] at hdeclared
  exact absurd hdeclared (by decide)

/-- What a graph takes of an input: `has_attachments` comes last. -/
theorem InitialState.values_eq (input : InitialState) :
    ∃ before, "has_attachments" ∉ before.map Prod.fst
      ∧ declared input.values = before
        ++ (input.hasAttachments.map fun b =>
          ("has_attachments", Json.bool b)).toList := by
  have hhas : declared (input.hasAttachments.map fun b =>
      ("has_attachments", Json.bool b)).toList
      = (input.hasAttachments.map fun b =>
        ("has_attachments", Json.bool b)).toList := by
    cases input.hasAttachments with
    | none => rfl
    | some b => rfl
  have hcount : declared (input.attachmentCount.map fun n =>
      ("attachment_count", Json.int n)).toList = [] := by
    cases input.attachmentCount with
    | none => rfl
    | some n => rfl
  refine ⟨declared ([("session_id", .str input.sessionId),
      ("run_id", .str input.runId), ("user_id", .str input.userId),
      ("graph_thread_id", .str input.graphThreadId)]
      ++ (input.jobId.map fun id => ("job_id", Json.str id)).toList
      ++ (input.emailId.map fun id => ("email_id", Json.str id)).toList),
    fun hmem => ?_, ?_⟩
  · have hmem := (List.filter_sublist.map Prod.fst).subset hmem
    cases input.jobId <;> cases input.emailId <;> simp at hmem
  · unfold InitialState.values
    rw [declared, List.filter_append, List.filter_append]
    unfold declared at hhas hcount
    rw [hhas, hcount, List.append_nil]
    rfl

/-- `has_attachments` is the input's, or stays. -/
theorem takeInput_hasAttachments :
    getMember (takeInput checkpoint input) "has_attachments"
      = match input.hasAttachments with
        | some b => some (.bool b)
        | none => getMember checkpoint "has_attachments" := by
  obtain ⟨before, hbefore, hvalues⟩ := input.values_eq
  unfold takeInput
  rw [getMember_setMember, if_neg (by decide), hvalues]
  have hskip : getMember (Json.assignAll (declared checkpoint) before)
      "has_attachments" = getMember checkpoint "has_attachments" := by
    rw [Json.getMember_assignAll_other hbefore, getMember_declared,
      if_pos (by decide)]
  cases input.hasAttachments with
  | none =>
      rw [Option.map_none, Option.toList_none, List.append_nil]
      exact hskip
  | some b =>
      rw [Json.assignAll_append]
      exact (getMember_setMember _ _ _ _).trans (if_pos rfl)

end Inputs

-- ================================================================== entries

section Entries

variable {db : Db} {sid : Uuid} {count : Nat}
  {checkpoint values : List (String × Json)} {e : GraphEntry}

/-- What a thread has of the attachments is true. -/
def Right (count : Nat) (values : List (String × Json)) : Prop :=
  ∀ v, getMember values "has_attachments" = some v →
    v = .null ∨ v = .bool (decide (0 < count))

/-- What a call knows of the attachments, as long as it lasts. -/
structure Informed (count : Nat) (c : GraphCall) : Prop where
  uncounted : getMember c.values "attachment_count" = none
  known : c.Knows → getMember c.values "has_attachments"
    = some (.bool (decide (0 < count)))
  unknown : ¬ c.Knows → ∀ v,
    getMember c.values "has_attachments" = some v → v = .null

/-- A call starts from an input, or from the checkpoint with
`has_attachments` repaired. -/
theorem entered_cases (h : entered db sid checkpoint e = some values) :
    (∃ input : InitialState, values = takeInput checkpoint input
      ∧ input.hasAttachments = (e.invocation sid
        (sessionAttachmentCount db sid)).hasAttachments)
    ∨ (e.brings ∧ values = ensureResumeHasAttachments (declared checkpoint)
      (decide (0 < sessionAttachmentCount db sid))) := by
  unfold entered graphInput at h
  obtain ⟨input, hinput, hvalues⟩ := Option.map_eq_some_iff.mp h
  obtain ⟨session, -, hinput⟩ := Option.map_eq_some_iff.mp hinput
  split at hinput
  · rename_i hresumes
    subst hinput
    cases e with
    | runPipeline runId => exact absurd hresumes (by simp [Invocation.resumes,
        GraphEntry.invocation])
    | continueSession runId => exact absurd hresumes (by
        simp [Invocation.resumes, GraphEntry.invocation])
    | resumeRun runId kind payload => exact Or.inr ⟨trivial, hvalues.symm⟩
  · subst hinput
    exact Or.inl ⟨_, hvalues.symm, rfl⟩

/-- A repaired checkpoint has it. -/
theorem ensureResume_hasAttachments (hright : Right count checkpoint) :
    getMember (ensureResumeHasAttachments checkpoint
      (decide (0 < count))) "has_attachments"
      = some (.bool (decide (0 < count))) := by
  unfold ensureResumeHasAttachments
  split
  · exact (getMember_setMember _ _ _ _).trans (if_pos rfl)
  · exact (getMember_setMember _ _ _ _).trans (if_pos rfl)
  · rename_i v hnull hv
    rcases hright v hv with rfl | rfl
    · exact absurd rfl hnull
    · exact hv

theorem ensureResume_uncounted
    (h : getMember checkpoint "attachment_count" = none) {b : Bool} :
    getMember (ensureResumeHasAttachments checkpoint b)
      "attachment_count" = none := by
  unfold ensureResumeHasAttachments
  split
  · exact (getMember_setMember _ _ _ _).trans h
  · exact (getMember_setMember _ _ _ _).trans h
  · exact h

theorem right_declared (h : Right count checkpoint) :
    Right count (declared checkpoint) := by
  unfold Right
  rw [getMember_declared, if_pos (by decide)]
  exact h

/-- The call that a task makes is informed. -/
theorem informed_entered
    (hright : Right (sessionAttachmentCount db sid) checkpoint)
    (h : entered db sid checkpoint e = some values) :
    Informed (sessionAttachmentCount db sid) ⟨e, checkpoint, values⟩ := by
  rcases entered_cases h with ⟨input, rfl, hinput⟩ | ⟨hbrings, rfl⟩
  · have hhas : getMember (takeInput checkpoint input) "has_attachments"
        = _ := takeInput_hasAttachments
    rw [hinput] at hhas
    cases e with
    | runPipeline runId =>
        exact ⟨takeInput_uncounted, fun _ => hhas,
          fun hnot => absurd (Or.inl trivial) hnot⟩
    | resumeRun runId kind payload =>
        exact ⟨takeInput_uncounted, fun _ => hhas,
          fun hnot => absurd (Or.inl trivial) hnot⟩
    | continueSession runId =>
        refine ⟨takeInput_uncounted, fun hknows => ?_, fun hnot v hv => ?_⟩
        · rcases hknows with hbrings | ⟨b, hb⟩
          · cases hbrings
          · rcases hright _ hb with hnull | hvalue
            · cases hnull
            · exact hhas.trans (hb.trans (congrArg some hvalue))
        · have hv := hhas.symm.trans hv
          rcases hright v hv with hnull | hvalue
          · exact hnull
          · exact absurd (Or.inr ⟨_, hv.trans (congrArg some hvalue)⟩) hnot
  · refine ⟨ensureResume_uncounted ?_,
      fun _ => ensureResume_hasAttachments (right_declared hright),
      fun hnot => absurd (Or.inl hbrings) hnot⟩
    rw [getMember_declared, if_neg (by decide)]

end Entries

-- ==================================================================== runs

section Runs

variable {db : Db} {sid : Uuid} {count : Nat} {t t' : GraphThread}

/-- The checkpoint is right and every call is informed. -/
structure GraphThread.Sound (count : Nat) (t : GraphThread) : Prop where
  right : Right count t.checkpoint
  informed : ∀ c ∈ t.calls, Informed count c

/-- What an informed call works on is right. -/
theorem Informed.right {c : GraphCall} (h : Informed count c) :
    Right count c.values := by
  intro v hv
  by_cases hknows : c.Knows
  · exact Or.inr (Option.some.inj (hv.symm.trans (h.known hknows)))
  · exact Or.inl (h.unknown hknows v hv)

/-- A node writes neither key. -/
theorem Informed.write {c : GraphCall} {key : String} {v : Json}
    (h : Informed count c) (hkey : key ∈ legalEmailStateKeys)
    (hne : key ≠ "has_attachments") :
    Informed count { c with values := setMember c.values key v } := by
  have hcount : key ≠ "attachment_count" := by
    rintro rfl
    exact absurd hkey (by decide)
  refine ⟨?_, fun hknows => ?_, fun hnot w hw => ?_⟩
  · rw [getMember_setMember, if_neg hcount]
    exact h.uncounted
  · rw [getMember_setMember, if_neg hne]
    exact h.known hknows
  · rw [getMember_setMember, if_neg hne] at hw
    exact h.unknown hnot w hw

theorem GraphThread.Sound.step {a : ThreadAction}
    (h : t.Sound (sessionAttachmentCount db sid))
    (hstep : GraphThread.step db sid a t = some t') :
    t'.Sound (sessionAttachmentCount db sid) := by
  cases a with
  | enter e =>
      obtain ⟨values, hentered, rfl⟩ := Option.map_eq_some_iff.mp hstep
      have hnew := informed_entered h.right hentered
      refine ⟨hnew.right, fun c hc => ?_⟩
      rcases List.mem_cons.mp hc with rfl | hc
      · exact hnew
      · exact h.informed c hc
  | write i key v =>
      simp only [GraphThread.step] at hstep
      split at hstep
      · rename_i hkey
        obtain ⟨call, hcall, rfl⟩ := Option.map_eq_some_iff.mp hstep
        have hwritten := (h.informed call
          (List.mem_of_getElem? hcall)).write (v := v) hkey.1 hkey.2
        refine ⟨hwritten.right, fun c hc => ?_⟩
        rcases List.mem_or_eq_of_mem_set hc with hc | rfl
        · exact h.informed c hc
        · exact hwritten
      · cases hstep
  | leave i =>
      obtain rfl := Option.some.inj hstep
      exact ⟨h.right, fun c hc =>
        h.informed c ((List.eraseIdx_sublist ..).subset hc)⟩

end Runs

-- ===================================================================== law

section Law

variable {rt : Runtime} {limits : StageLimits}
  {parse : Json → Option Int} {count : Nat} {c : GraphCall}

/-- A call has the no-attachment limit if it knows of none. -/
theorem Informed.none_iff (h : Informed count c) :
    getMember c.values "has_attachments" = some (.bool false)
      ↔ c.Knows ∧ count = 0 := by
  constructor
  · intro hfalse
    by_cases hknows : c.Knows
    · have hcount := hfalse.symm.trans (h.known hknows)
      injection hcount with hcount
      injection hcount with hcount
      exact ⟨hknows, by simpa using hcount.symm⟩
    · cases h.unknown hknows _ hfalse
  · rintro ⟨hknows, rfl⟩
    exact h.known hknows

/-- The limit of an informed call. -/
theorem Informed.matches_iff (h : Informed count c) :
    BudgetMatches rt limits parse count c
      ↔ (if getMember c.values "has_attachments" = some (.bool false)
        then limits.extractNone else limits.extractSmall)
        = prescribedLimit limits count := by
  unfold BudgetMatches stageConfig
  rw [recursionLimit_extract h.uncounted]
  simp only [Option.map_some, Option.some.injEq]
  constructor
  · intro hmatches
    obtain ⟨bound, rfl, hlimit⟩ := hmatches ⟨[], none, []⟩ ""
    exact Option.some.inj hlimit
  · intro hlimit config attemptId
    exact ⟨_, rfl, congrArg some hlimit⟩

end Law

/-- On a thread whose earlier checkpoints predate `has_attachments`, every
extract stage of a call gets the limit of its email exactly if the email
has one or two attachments, or none and the call knows it. -/
theorem stage_budget_iff {rt : Runtime} {limits : StageLimits}
    {parse : Json → Option Int} {db : Db} {sid : Uuid}
    {older : List (String × Json)} {t : GraphThread} {c : GraphCall}
    (holder : ∀ v, getMember older "has_attachments" = some v → v = .null)
    (hreached : Lts.Reachable (GraphThread.step db sid) Lts.Always
      (GraphThread.init older) t)
    (hcall : c ∈ t.calls) :
    BudgetMatches rt limits parse (sessionAttachmentCount db sid) c
      ↔ BudgetKept limits (sessionAttachmentCount db sid) c := by
  have hsound : t.Sound (sessionAttachmentCount db sid) := by
    refine Lts.Reachable.invariant
      (P := fun t => t.Sound (sessionAttachmentCount db sid))
      ⟨fun v hv => Or.inl (holder v hv), fun c hc => by cases hc⟩ ?_
      hreached
    intro s a s' _ hs _ hstep
    exact hs.step hstep
  have hinformed := hsound.informed c hcall
  generalize sessionAttachmentCount db sid = count at hinformed ⊢
  rw [hinformed.matches_iff]
  unfold prescribedLimit BudgetKept
  rcases Nat.eq_zero_or_pos count with hzero | hpos
  · rw [if_pos hzero]
    by_cases hknows : c.Knows
    · rw [if_pos (hinformed.none_iff.mpr ⟨hknows, hzero⟩)]
      exact ⟨fun _ => ⟨fun _ => Or.inl hknows, fun h => by omega⟩,
        fun _ => rfl⟩
    · rw [if_neg fun h => hknows (hinformed.none_iff.mp h).1]
      exact ⟨fun h => ⟨fun _ => Or.inr h.symm, fun h => by omega⟩,
        fun h => ((h.1 hzero).resolve_left hknows).symm⟩
  · rw [if_neg fun h => hpos.ne' (hinformed.none_iff.mp h).2,
      if_neg hpos.ne']
    by_cases hsmall : count ≤ 2
    · rw [if_pos hsmall]
      exact ⟨fun _ => ⟨fun h => absurd h hpos.ne',
        fun h => absurd hsmall (not_le.mpr h)⟩, fun _ => rfl⟩
    · rw [if_neg hsmall]
      exact ⟨fun h => ⟨fun h => absurd h hpos.ne', fun _ => h.symm⟩,
        fun h => (h.2 (not_le.mp hsmall)).symm⟩

-- =============================================================== scenarios

/-- Alice's session 10, its email with these attachments. -/
def aliceWith (attachments : Relational.Table IngestionAttachment) : Db :=
  { Db.empty.join alice alice_fresh with attachments := attachments }

/-- The first call of her job. -/
def aliceStarts (attachments : Relational.Table IngestionAttachment) :
    Option GraphThread :=
  Lts.run (GraphThread.step (aliceWith attachments) 10) (.init [])
    [.enter (.runPipeline 1)]

def twoFiles : Relational.Table IngestionAttachment :=
  ⟨[⟨1, 10, "a.pdf"⟩, ⟨2, 10, "b.pdf"⟩], by decide⟩

def threeFiles : Relational.Table IngestionAttachment :=
  ⟨[⟨1, 10, "a.pdf"⟩, ⟨2, 10, "b.pdf"⟩, ⟨3, 10, "c.pdf"⟩], by decide⟩

/-- The limits of the extract stage in the calls of a thread. -/
def extractLimits (t : GraphThread) : List (Option (Option Int)) :=
  t.calls.map fun c =>
    (stageConfig Runtime.sample .shipped (fun _ => none) .extract c.values
      ⟨[], none, []⟩ "").map (·.recursionLimit)

/-- An email with two attachments gets the small limit. -/
theorem two_attachments_budget : ∃ t c, aliceStarts twoFiles = some t
    ∧ c ∈ t.calls
    ∧ BudgetMatches Runtime.sample .shipped (fun _ => none) 2 c := by
  have hlimits : (aliceStarts twoFiles).map extractLimits
      = some [some (some 12)] := by
    decide +kernel
  obtain ⟨t, ht, hlimit⟩ := Option.map_eq_some_iff.mp hlimits
  obtain ⟨c, hc, -⟩ := List.mem_map.mp
    (hlimit ▸ List.mem_singleton_self _)
  exact ⟨t, c, ht, hc, (stage_budget_iff (fun v hv => by cases hv)
    (Lts.reachable_of_run .init ht) hc).mpr
    ⟨fun h => absurd h (by decide +kernel),
      fun h => absurd h (by decide +kernel)⟩⟩

/-- One with three gets it too. -/
theorem three_attachments_small : ¬ ∀ (rt : Runtime)
    (limits : StageLimits) (parse : Json → Option Int) (db : Db)
    (sid : Uuid) (older : List (String × Json)) (t : GraphThread)
    (c : GraphCall),
    (∀ v, getMember older "has_attachments" = some v → v = .null) →
    Lts.Reachable (GraphThread.step db sid) Lts.Always
      (GraphThread.init older) t →
    c ∈ t.calls →
    BudgetMatches rt limits parse (sessionAttachmentCount db sid) c := by
  intro h
  have hlimits : (aliceStarts threeFiles).map extractLimits
      = some [some (some 12)] := by
    decide +kernel
  obtain ⟨t, ht, hlimit⟩ := Option.map_eq_some_iff.mp hlimits
  obtain ⟨c, hc, hsmall⟩ := List.mem_map.mp
    (hlimit ▸ List.mem_singleton_self (some (some (12 : Int))))
  obtain ⟨bound, hbound, hlarge⟩ := h Runtime.sample .shipped
    (fun _ => none) (aliceWith threeFiles) 10 [] t c
    (fun v hv => by cases hv) (Lts.reachable_of_run .init ht) hc
    ⟨[], none, []⟩ ""
  rw [hbound] at hsmall
  have htwelve := hlarge.symm.trans (Option.some.inj hsmall)
  exact absurd htwelve (by decide +kernel)

end LegalBot
