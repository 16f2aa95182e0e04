/-
The slots of the concurrency budget: the Redis set of in-flight jobs.

The dispatcher adds a job to the set after its commit; the only release
is in the `finally` around `_invoke_graph`.

# What goes wrong

A `run_pipeline` whose guarded transition raises never reaches that
`finally`: the slot of a job that was cancelled, or reverted by the
sweeper and left alone, stays in the set. So does the slot of a
dispatcher that is late, of a release that fails, and of a task that
crashes after a duplicate delivery acknowledged its message.

# The invariant

A slot is accounted for while its job is active, or while a
`run_pipeline` of the job is queued or executing (`State.Pipelined`).
`pipelined_step` says that an execution is over only when an actor that
has the slot ends or crashes; `KeepsSlots` asks of these steps, and of
those that acquire a slot or take its job out of the active states, that
something else accounts for the slot.
-/
import LegalBot.Orchestrator.Budget

namespace LegalBot

open Relational (HasKey Table)

-- ============================================================== statements

/-- The slot a `run_pipeline` is responsible for. -/
def Pc.slot : Pc → Option Uuid
  | .worker (.runPipeline j) => some j
  | .worker (.invoke _ slot _) => slot
  | .worker (.release j) => some j
  | _ => none

/-- A `run_pipeline` of the job is in the broker. -/
def State.PipelineQueued (s : State) (j : Uuid) : Prop :=
  ∃ mid, s.sent[mid]? = some (.runPipeline j) ∧ mid ∉ s.acked

/-- A `run_pipeline` of the job is queued or executing. -/
def State.Pipelined (s : State) (j : Uuid) : Prop :=
  s.PipelineQueued j ∨ ∃ tid, (s.tasks tid).pc.slot = some j

/-- Another actor executes one. -/
def State.PipelineElsewhere (s : State) (tid : Nat) (j : Uuid) : Prop :=
  ∃ tid', tid' ≠ tid ∧ (s.tasks tid').pc.slot = some j

/-- One is queued or executing besides the actor's own. -/
def State.PipelinedBesides (s : State) (tid : Nat) (j : Uuid) : Prop :=
  (∃ mid, s.sent[mid]? = some (.runPipeline j) ∧ mid ∉ s.acked
      ∧ (s.tasks tid).message ≠ some mid)
    ∨ s.PipelineElsewhere tid j

/-- Every job in the set is active, or has a `run_pipeline` under way. -/
def NoLeakedSlots (s : State) : Prop :=
  ∀ j ∈ s.inFlight, j ∈ activeJobs s.db.jobs ∨ s.Pipelined j

/-- The condition on a step. -/
structure KeepsSlots (env : Env) (a : Action) (s : State) : Prop where
  acquires : ∀ tid reply j rest, a = .advance tid reply →
    (s.tasks tid).pc = .handler (.acquireNext (j :: rest)) →
    j ∈ activeJobs s.db.jobs ∨ s.Pipelined j
  leaves : ∀ tx j row, committing env a s = some tx → j ∈ s.inFlight →
    s.db.jobs.get j = some row → row.state.active = true →
    tx.deactivates env.cfg s.now s.db row → s.Pipelined j
  starts : ∀ tid reply j, a = .advance tid reply →
    (s.tasks tid).pc = .worker (.runPipeline j) → j ∈ s.inFlight →
    j ∈ activeJobs s.db.jobs ∨ s.PipelinedBesides tid j
  releases : ∀ tid e j, a = .advance tid (.raised e) →
    (s.tasks tid).pc = .worker (.release j) → j ∈ s.inFlight →
    j ∈ activeJobs s.db.jobs ∨ s.PipelinedBesides tid j
  crashes : ∀ tid j, a = .crash tid → (s.tasks tid).pc.slot = some j →
    j ∈ s.inFlight →
    j ∈ activeJobs s.db.jobs ∨ s.PipelineQueued j
      ∨ s.PipelineElsewhere tid j

-- ================================================================= the set

section TheSet

variable {env : Env} {s s' : State} {a : Action} {tid : Nat} {j : Uuid}

/-- Only the dispatcher's loop acquires a slot. -/
theorem Handler.request_acquire {now : Time} {db : Db}
    {inFlight : Finset Uuid} {reply : Reply} {h next : Handler}
    (hr : h.request env now db inFlight reply
      = some (.acquire j next)) :
    ∃ rest, h = .acquireNext (j :: rest) := by
  cases h with
  | _ =>
      unfold Handler.request at hr
      grind

theorem Stage.request_acquire {cfg : Settings} {db : Db} {reply : Reply}
    {inv : Invocation} {stage next : Stage} :
    stage.request cfg db inv reply ≠ some (.acquire j next) := by
  intro hr
  cases stage with
  | _ =>
      unfold Stage.request at hr
      grind

theorem Worker.request_acquire {db : Db} {reply : Reply}
    {w next : Worker} :
    w.request env db reply ≠ some (.acquire j next) := by
  intro hr
  cases w with
  | invoke inv slot stage =>
      rcases Worker.request_invoke_inv hr with ⟨-, h⟩ | ⟨-, r₀, hr₀, h⟩
      · cases h
      · cases r₀ with
        | acquire j₀ next₀ => exact Stage.request_acquire hr₀
        | _ => cases h
  | _ =>
      unfold Worker.request at hr
      grind

/-- What a step adds to the set: a slot the dispatcher acquires. -/
theorem inFlight_origin (h : apply env a s = some s')
    (hj : j ∈ s'.inFlight) :
    j ∈ s.inFlight ∨ ∃ tid reply rest, a = .advance tid reply
      ∧ (s.tasks tid).pc = .handler (.acquireNext (j :: rest))
      ∧ s'.db = s.db := by
  cases a with
  | advance tid reply =>
      obtain ⟨r, hr, rfl⟩ := Option.map_eq_some_iff.mp h
      cases r with
      | commit tx ok raised =>
          unfold State.perform at hj
          simp only at hj
          split at hj
          · rw [continueAt_inFlight] at hj
            exact Or.inl hj
          · rw [continueAt_inFlight] at hj
            exact Or.inl hj
      | acquire k next =>
          have hins : j ∈ insert k s.inFlight := by
            unfold State.perform at hj
            rwa [continueAt_inFlight] at hj
          rcases Finset.mem_insert.mp hins with rfl | hin
          · rcases request_cases hr with
              ⟨hd, r₀, hpc, hr₀, hm⟩ | ⟨w, r₀, hpc, hr₀, hm⟩
            · cases r₀ with
              | acquire k₀ next₀ =>
                  cases hm
                  obtain ⟨rest, rfl⟩ := Handler.request_acquire hr₀
                  exact Or.inr ⟨tid, reply, rest, rfl, hpc,
                    continueAt_db _⟩
              | _ => cases hm
            · cases r₀ with
              | acquire k₀ next₀ =>
                  exact absurd hr₀ Worker.request_acquire
              | _ => cases hm
          · exact Or.inl hin
      | release k next =>
          unfold State.perform at hj
          rw [continueAt_inFlight] at hj
          exact Or.inl (Finset.mem_of_mem_erase hj)
      | _ =>
          unfold State.perform at hj
          rw [continueAt_inFlight] at hj
          exact Or.inl hj
  | tick d =>
      injection h with h
      subst h
      exact Or.inl hj
  | crash tid =>
      injection h with h
      subst h
      exact Or.inl hj
  | start tid entry =>
      unfold apply at h
      simp only at h
      split at h
      · injection h with h
        subst h
        exact Or.inl hj
      · cases h
  | deliver tid mid =>
      unfold apply at h
      simp only at h
      split at h
      · obtain ⟨m, -, rfl⟩ := Option.map_eq_some_iff.mp h
        exact Or.inl hj
      · cases h

end TheSet

-- ============================================================== executions

section Executions

variable {env : Env} {G : Action → State → Prop} {s s' : State}
  {a : Action} {tid : Nat} {j : Uuid}

theorem slot_not_idle {pc : Pc} (h : pc.slot = some j) :
    pc.isIdle = false := by
  cases pc with
  | handler hd => cases h
  | worker w =>
      cases w with
      | done => cases h
      | _ => rfl

/-- A worker keeps its slot until its guard raises or it has tried to
release it. -/
theorem Worker.request_slot {db : Db} {reply : Reply} {w : Worker}
    {r : Request Worker} (run : Tx → Except TxError Db)
    (hr : w.request env db reply = some r)
    (hs : (Pc.worker w).slot = some j) :
    (Pc.worker (r.landing run)).slot = some j
      ∨ (w = .runPipeline j ∧ ∃ sid rid hex e ok,
          r = .commit (.startPipeline j sid rid hex) ok (fun _ => .done)
          ∧ run (.startPipeline j sid rid hex) = .error e)
      ∨ (w = .release j ∧ (r = .release j .done
          ∨ ((∃ e, reply = .raised e) ∧ r = .goto .done))) := by
  cases w with
  | runPipeline k =>
      injection hs with hs
      subst hs
      simp only [Worker.request] at hr
      split at hr
      · rename_i sid rid _ hex
        injection hr with hr
        subst hr
        cases hc : run (.startPipeline k sid rid hex) with
        | ok db' =>
            refine Or.inl ?_
            unfold Request.landing
            simp only [hc]
            rfl
        | error e =>
            exact Or.inr (Or.inl ⟨rfl, sid, rid, hex, e, _, rfl, hc⟩)
      · cases hr
  | invoke inv slot stage =>
      have hslot : slot = some j := hs
      subst hslot
      refine Or.inl ?_
      rcases Worker.request_invoke_inv hr with
        ⟨-, rfl⟩ | ⟨-, r₀, -, rfl⟩
      · rfl
      · rw [Request.landing_map]
        rfl
  | release k =>
      injection hs with hs
      subst hs
      refine Or.inr (Or.inr ⟨rfl, ?_⟩)
      simp only [Worker.request] at hr
      split at hr
      · injection hr with hr
        exact Or.inl hr.symm
      · injection hr with hr
        exact Or.inr ⟨⟨_, rfl⟩, hr.symm⟩
      · cases hr
  | _ => cases hs

/-- How an actor that has a slot comes not to have it any more. -/
inductive DropsSlot (s s' : State) (tid : Nat) (j : Uuid) : Action → Prop
  | crashed (db : s'.db = s.db) : DropsSlot s s' tid j (.crash tid)
  | skipped (reply : Reply)
      (pc : (s.tasks tid).pc = .worker (.runPipeline j))
      (db : s'.db = s.db) : DropsSlot s s' tid j (.advance tid reply)
  | released (reply : Reply) (gone : j ∉ s'.inFlight) :
      DropsSlot s s' tid j (.advance tid reply)
  | kept (e : String) (pc : (s.tasks tid).pc = .worker (.release j))
      (db : s'.db = s.db) : DropsSlot s s' tid j (.advance tid (.raised e))

/-- An actor that has a slot keeps it, or drops it and is done. -/
theorem slot_step (h : apply env a s = some s')
    (hs : (s.tasks tid).pc.slot = some j) :
    (s'.tasks tid).pc.slot = some j
      ∨ ((s'.tasks tid).message = none ∧ DropsSlot s s' tid j a) := by
  rcases apply_live h (slot_not_idle hs) with
    heq | ⟨rfl, rfl⟩ | ⟨reply, r, rfl, hreq, rfl⟩
  · rw [heq]
    exact Or.inl hs
  · refine Or.inr ⟨?_, .crashed rfl⟩
    simp
  rcases request_cases hreq with
    ⟨hd, r₀, hpc, -, -⟩ | ⟨w, r₀, hpc, hr₀, rfl⟩
  · rw [hpc] at hs
    cases hs
  rw [hpc] at hs
  rcases Worker.request_slot (Tx.commit env.cfg s.now s.db) hr₀ hs with
    hkept | ⟨rfl, sid, rid, hex, e, ok, rfl, he⟩
      | ⟨rfl, rfl | ⟨⟨e, rfl⟩, rfl⟩⟩
  · rw [perform_pc, Request.landing_map]
    exact Or.inl hkept
  · refine Or.inr ⟨perform_done ?_, .skipped reply hpc ?_⟩
    · rw [Request.landing_map]
      unfold Request.landing
      simp only [he]
      rfl
    · unfold Request.map State.perform
      simp only [he]
      exact continueAt_db _
  · refine Or.inr ⟨perform_done rfl, .released reply ?_⟩
    unfold Request.map State.perform
    simp only [continueAt_inFlight]
    exact Finset.notMem_erase j s.inFlight
  · exact Or.inr ⟨perform_done rfl, .kept e hpc (continueAt_db _)⟩

/-- A task that holds a `run_pipeline` message executes it. -/
def HoldsPipelines (s : State) : Prop :=
  ∀ tid mid j, (s.tasks tid).message = some mid →
    s.sent[mid]? = some (.runPipeline j) →
    (s.tasks tid).pc.slot = some j

theorem reaches_holdsPipelines (h : Reaches env G s) :
    HoldsPipelines s := by
  intro tid mid j hheld hsent
  have hslot : ∀ j', Message.runPipeline j = .runPipeline j' →
      (s.tasks tid).pc.slot = some j' := by
    refine reaches_held (Q := fun m pc => ∀ j', m = .runPipeline j' →
      pc.slot = some j') ?_ ?_ h hheld hsent
    · rintro m j' rfl
      rfl
    · intro s tid reply r m hq hreq hlive j' hm
      rcases request_cases hreq with
        ⟨hd, r₀, hpc, -, -⟩ | ⟨w, r₀, hpc, hr₀, rfl⟩
      · have hslot := hq j' hm
        rw [hpc] at hslot
        cases hslot
      · have hslot := hq j' hm
        rw [hpc] at hslot
        rw [Request.landing_map] at hlive ⊢
        -- a worker that gives up its slot is done
        rcases Worker.request_slot (Tx.commit env.cfg s.now s.db) hr₀
            hslot with
          hkept | ⟨-, _, _, _, _, _, rfl, he⟩
            | ⟨-, rfl | ⟨-, rfl⟩⟩
        · exact hkept
        · unfold Request.landing at hlive
          simp only [he] at hlive
          cases hlive
        · cases hlive
        · cases hlive
  exact hslot j rfl

end Executions

-- ================================================================== a step

section Step

variable {env : Env} {G : Action → State → Prop} {s s' : State}
  {a : Action} {tid : Nat} {j : Uuid}

/-- A message that the acting task does not hold stays in the broker. -/
theorem unacked_step (h : apply env a s = some s') {mid : Nat}
    (ht : ∀ tid, a.actor = some tid →
      (s.tasks tid).message ≠ some mid) (hack : mid ∉ s.acked) :
    mid ∉ s'.acked := by
  rcases apply_acked h with
    hsame | ⟨tid, _, _, mid', rfl, -, -, -, hheld, hins⟩
  · rw [hsame]
    exact hack
  · rw [hins, Finset.mem_insert, not_or]
    refine ⟨?_, hack⟩
    rintro rfl
    exact ht tid rfl hheld

/-- What others queue or execute goes on. -/
theorem pipelinedBesides_step (h : apply env a s = some s')
    (ht : a.actor = some tid) (hp : s.PipelinedBesides tid j) :
    s'.Pipelined j := by
  rcases hp with ⟨mid, hsent, hack, hheld⟩ | ⟨tid', hne, hslot⟩
  · refine Or.inl ⟨mid, apply_sent_kept h hsent, ?_⟩
    refine unacked_step h (fun tid₁ ht₁ => ?_) hack
    rw [ht] at ht₁
    injection ht₁ with ht₁
    exact ht₁ ▸ hheld
  · refine Or.inr ⟨tid', ?_⟩
    have hother : a.actor ≠ some tid' := by
      rw [ht]
      intro he
      exact hne (Option.some.inj he).symm
    rw [apply_other h hother]
    exact hslot

/-- A `run_pipeline` that is under way goes on, unless the acting task
has the slot and drops it. -/
theorem pipelined_step (hr : Reaches env G s)
    (h : apply env a s = some s') (hp : s.Pipelined j) :
    s'.Pipelined j ∨ ∃ tid, a.actor = some tid
      ∧ (s.tasks tid).pc.slot = some j ∧ DropsSlot s s' tid j a := by
  cases hactor : a.actor with
  | none =>
      -- time passes
      cases a with
      | tick d =>
          injection h with h
          subst h
          exact Or.inl hp
      | _ => cases hactor
  | some tid =>
      by_cases hbesides : s.PipelinedBesides tid j
      · exact Or.inl (pipelinedBesides_step h hactor hbesides)
      have hslot : (s.tasks tid).pc.slot = some j := by
        rcases hp with ⟨mid, hsent, hack⟩ | ⟨tid', hslot⟩
        · by_cases hheld : (s.tasks tid).message = some mid
          · exact reaches_holdsPipelines hr tid mid j hheld hsent
          · exact absurd (Or.inl ⟨mid, hsent, hack, hheld⟩) hbesides
        · by_cases ht : tid' = tid
          · exact ht ▸ hslot
          · exact absurd (Or.inr ⟨tid', ht, hslot⟩) hbesides
      rcases slot_step h hslot with hkept | ⟨-, hdrop⟩
      · exact Or.inl (Or.inr ⟨tid, hkept⟩)
      · exact Or.inr ⟨tid, rfl, hslot, hdrop⟩

/-- An active job stays active, or a transaction deactivates it. -/
theorem active_step (h : apply env a s = some s')
    (hj : j ∈ activeJobs s.db.jobs) :
    j ∈ activeJobs s'.db.jobs ∨ ∃ tx row, committing env a s = some tx
      ∧ s.db.jobs.get j = some row ∧ row.state.active = true
      ∧ tx.deactivates env.cfg s.now s.db row := by
  obtain ⟨row, hrow, hactive⟩ := mem_activeJobs.mp hj
  rcases apply_effects h with hdb | ⟨tx, htx, hc⟩
  · rw [hdb]
    exact Or.inl hj
  by_cases hd : tx.deactivates env.cfg s.now s.db row
  · exact Or.inr ⟨tx, row, htx, hrow, hactive, hd⟩
  · exact Or.inl (active_kept hc hrow hactive hd)

/-- A slot that is dropped under the condition is accounted for by its
job or by another `run_pipeline`. -/
theorem dropped_accounted (h : apply env a s = some s')
    (hg : KeepsSlots env a s) (hslot : (s.tasks tid).pc.slot = some j)
    (hin : j ∈ s.inFlight) (hin' : j ∈ s'.inFlight)
    (hdrop : DropsSlot s s' tid j a) :
    j ∈ activeJobs s'.db.jobs ∨ s'.Pipelined j := by
  cases hdrop with
  | crashed hdb =>
      rcases hg.crashes tid j rfl hslot hin with
        hactive | ⟨mid, hsent, hack⟩ | hother
      · rw [hdb]
        exact Or.inl hactive
      · refine Or.inr (Or.inl ⟨mid, apply_sent_kept h hsent, ?_⟩)
        injection h with h
        subst h
        exact hack
      · exact Or.inr (pipelinedBesides_step h rfl (Or.inr hother))
  | skipped reply hpc hdb =>
      rcases hg.starts tid reply j rfl hpc hin with hactive | hbesides
      · rw [hdb]
        exact Or.inl hactive
      · exact Or.inr (pipelinedBesides_step h rfl hbesides)
  | released reply hgone => exact absurd hin' hgone
  | kept e hpc hdb =>
      rcases hg.releases tid e j rfl hpc hin with hactive | hbesides
      · rw [hdb]
        exact Or.inl hactive
      · exact Or.inr (pipelinedBesides_step h rfl hbesides)

theorem slots_step (hr : Reaches env G s) (hg : KeepsSlots env a s)
    (hinv : NoLeakedSlots s) (h : apply env a s = some s') :
    NoLeakedSlots s' := by
  intro j hin'
  rcases inFlight_origin h hin' with
    hin | ⟨tid, reply, rest, rfl, hpc, hdb⟩
  · have hnow : j ∈ activeJobs s'.db.jobs ∨ s.Pipelined j := by
      rcases hinv j hin with hactive | hpipelined
      · rcases active_step h hactive with
          hkept | ⟨tx, row, htx, hrow, hst, hd⟩
        · exact Or.inl hkept
        · exact Or.inr (hg.leaves tx j row htx hin hrow hst hd)
      · exact Or.inr hpipelined
    rcases hnow with hactive | hpipelined
    · exact Or.inl hactive
    rcases pipelined_step hr h hpipelined with
      hgo | ⟨tid, -, hslot, hdrop⟩
    · exact Or.inr hgo
    · exact dropped_accounted h hg hslot hin hin' hdrop
  · -- the dispatcher just acquired the slot
    rcases hg.acquires tid reply j rest rfl hpc with
      hactive | hpipelined
    · rw [hdb]
      exact Or.inl hactive
    rcases pipelined_step hr h hpipelined with
      hgo | ⟨tid', ht, hslot, -⟩
    · exact Or.inr hgo
    · injection ht with ht
      rw [← ht, hpc] at hslot
      cases hslot

end Step

/-- In every run whose steps all meet the condition, no slot is leaked in
any state reached. -/
theorem no_leaked_slots {env : Env} {s : State}
    (h : Reaches env (KeepsSlots env) s) : NoLeakedSlots s := by
  refine Lts.Reachable.invariant (P := NoLeakedSlots) ?_ ?_ h
  · intro j hj
    exact absurd hj (Finset.notMem_empty j)
  · intro s a s' hr hinv hg hstep
    exact slots_step hr hg hinv hstep

-- =============================================================== scenarios

/-- No crash and no failing release, and an actor commits while nobody
else's job is in the set. -/
def Smooth (env : Env) (a : Action) (s : State) : Prop :=
  match a with
  | .crash _ => False
  | .advance tid reply =>
      ((committing env a s).isNone
          ∨ ∀ j ∈ s.inFlight, (s.tasks tid).pc.slot = some j)
        ∧ match (s.tasks tid).pc, reply with
          | .handler (.acquireNext (j :: _)), _ =>
              j ∈ activeJobs s.db.jobs
          | .worker (.runPipeline j), _ => j ∈ activeJobs s.db.jobs
          | .worker (.release _), .raised _ => False
          | _, _ => True
  | _ => True

instance (env : Env) (a : Action) (s : State) :
    Decidable (Smooth env a s) := by
  dsimp only [Smooth]
  induction a using Action.casesOn with
  | advance tid reply =>
      refine @instDecidableAnd _ _ inferInstance ?_
      generalize (s.tasks tid).pc = pc
      induction pc using Pc.casesOn with
      | handler h =>
          induction h using Handler.casesOn with
          | acquireNext js =>
              induction js using List.casesOn <;> infer_instance
          | _ => infer_instance
      | worker w =>
          induction w using Worker.casesOn <;>
            induction reply using Reply.casesOn <;> infer_instance
  | _ => infer_instance

theorem Smooth.keepsSlots {env : Env} {a : Action} {s : State}
    (h : Smooth env a s) : KeepsSlots env a s where
  acquires tid reply j rest ha hpc := by
    subst ha
    obtain ⟨-, h⟩ := h
    rw [hpc] at h
    exact Or.inl h
  leaves tx j row htx hin _ _ _ := by
    obtain ⟨tid, reply, ok, raised, rfl, -⟩ := committing_request htx
    rcases h.1 with hnone | hslot
    · rw [htx] at hnone
      cases hnone
    · exact Or.inr ⟨tid, hslot j hin⟩
  starts tid reply j ha hpc _ := by
    subst ha
    obtain ⟨-, h⟩ := h
    rw [hpc] at h
    exact Or.inl h
  releases tid e j ha hpc _ := by
    subst ha
    obtain ⟨-, h⟩ := h
    rw [hpc] at h
    exact h.elim
  crashes tid j ha _ _ := by
    subst ha
    exact h.elim

/-- Job 2 is completed, and its slot is about to be released. -/
theorem finished_pipeline_accounted : ∃ s,
    Lts.run (Lts.guarded (apply Env.default) (Smooth Env.default))
      State.init (firstStart ++ cleanFinish.dropLast) = some s
    ∧ jobState s.db 2 = some .completed ∧ 2 ∈ s.inFlight
    ∧ NoLeakedSlots s := by
  have hend : (Lts.run (Lts.guarded (apply Env.default)
      (Smooth Env.default)) State.init
      (firstStart ++ cleanFinish.dropLast)).map
      (fun s => (jobState s.db 2, decide (2 ∈ s.inFlight)))
      = some (some .completed, true) := by
    decide +kernel
  obtain ⟨s, hs, hend⟩ := Option.map_eq_some_iff.mp hend
  injection hend with hjob hin
  have hr : Reaches Env.default (Smooth Env.default) s :=
    Lts.reachable_of_guarded_run .init hs
  exact ⟨s, hs, hjob, of_decide_eq_true hin,
    no_leaked_slots (hr.mono fun _ _ => Smooth.keepsSlots)⟩

/-- Job 2 is dispatched and then cancelled; its `run_pipeline` is skipped
by the guard. -/
def skippedPipeline : List Action :=
  firstStart.take 8 ++
  [.start 1 (.cancel 2 "stop"), .advance 1 .ok, .advance 1 .ok,
    .deliver 1 0, .advance 1 (.fresh [10, 11] "a")]

/-- The slot of job 2 is never released. -/
theorem skipped_pipeline_leaks :
    ¬ ∀ env s, Reaches env Lts.Always s → NoLeakedSlots s := by
  intro h
  have hend : (Lts.run (apply Env.default) State.init skippedPipeline).map
      (fun s => ((decide (2 ∈ s.inFlight),
          decide (2 ∈ activeJobs s.db.jobs)),
        (List.range 2).all (fun tid => (s.tasks tid).pc.isIdle),
        (List.range s.sent.length).all (· ∈ s.acked)))
      = some ((true, false), true, true) := by
    decide +kernel
  obtain ⟨s, hs, hend⟩ := Option.map_eq_some_iff.mp hend
  injection hend with hslot hend
  injection hslot with hin hinactive
  injection hend with hidle hacked
  have hquiet : s.Quiet := quiet_of_run (n := 2) hs (by decide) hidle hacked
  rcases h Env.default s (Lts.reachable_of_run .init hs) 2
    (of_decide_eq_true hin) with
    hactive | ⟨mid, hsent, hack⟩ | ⟨tid, hslot⟩
  · exact of_decide_eq_false hinactive hactive
  · exact hack (hquiet.acked mid (List.getElem?_eq_some_iff.mp hsent).1)
  · have hbusy := slot_not_idle hslot
    rw [hquiet.idle tid] at hbusy
    cases hbusy

end LegalBot
