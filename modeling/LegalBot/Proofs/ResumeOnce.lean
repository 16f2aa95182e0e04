/-
Each interrupt is resumed at most once.

# What goes wrong

`resolve` reads a pending row and later updates it by id alone: two
resolutions that read the same row both commit, and one that read it
before `expire_stalled` turns `expired` into `resolved`. And a
`resume_run` message may be delivered twice; the worker treats the
missed job transition as a warning and invokes the graph all the same.

# The condition and the invariants

`SingleResume` asks that a resolution commits only while its interrupt
is still pending, and that a message that answers an interrupt is
delivered again only when no earlier delivery is executing or has called
the graph. Under it

- a status that has left `pending` was logged once (`ClosedOnce`);
- the answer to an interrupt is a token: one actor is about to publish
  it, or one message carries it and at most one worker holds that
  message, or it has reached the graph (`TokenInv`).

Tokens are created by a committed resolution only, which is why the
first invariant bounds the second.
-/
import LegalBot.Orchestrator.Pending

namespace LegalBot

open Relational (HasKey Table)

-- ============================================================== statements

/-- A final status of interrupt `i` was written. -/
def Event.closes (i : Uuid) : Event → Bool
  | .closed k _ => decide (k = i)
  | _ => false

/-- The graph was invoked with the answer to interrupt `i`. -/
def Event.answers (i : Uuid) : Event → Bool
  | .invoked _ _ (some k) => decide (k = i)
  | _ => false

/-- The graph was invoked with `Command(resume=…)` for interrupt `i`. -/
def Event.resumes (i : Uuid) : Event → Bool
  | .invoked _ true (some k) => decide (k = i)
  | _ => false

/-- The `user_intervention` rows of interrupt `i`. -/
def interventionsOf (db : Db) (i : Uuid) : List UserIntervention :=
  db.interventions.rows.filter fun r => r.interruptRequestId = i

/-- Every interrupt is closed, answered by a human and resumed at most
once. -/
def ResumedOnce (s : State) : Prop :=
  ∀ i, s.log.countP (Event.closes i) ≤ 1
    ∧ (interventionsOf s.db i).length ≤ 1
    ∧ s.log.countP (Event.resumes i) ≤ 1

/-- The interrupt a message answers. -/
def Message.interrupt : Message → Option Uuid
  | .resumeRun _ _ i => i
  | _ => none

/-- A resolution commits on a row that is still pending. -/
def ResolvesPending (env : Env) (a : Action) (s : State) : Prop :=
  match committing env a s with
  | some (.resolve _ current _ _ _) =>
      (s.db.interrupts.get current.id).map (·.status) = some .pending
  | _ => True

/-- An answer is delivered again only when no earlier delivery is
executing or has called the graph. -/
def DeliversOnce (a : Action) (s : State) : Prop :=
  match a with
  | .deliver _ mid =>
      ∀ i, (s.sent[mid]?).bind Message.interrupt = some i →
        (∀ tid, (s.tasks tid).message ≠ some mid)
          ∧ s.log.countP (Event.answers i) = 0
  | _ => True

/-- The condition on one step. -/
def SingleResume (env : Env) (a : Action) (s : State) : Prop :=
  ResolvesPending env a s ∧ DeliversOnce a s

-- ================================================================= closing

section Closing

variable {cfg : Settings} {now : Time} {db db' : Db} {tx : Tx} {i : Uuid}

theorem countP_closes_pos {log : List Event} :
    0 < log.countP (Event.closes i) ↔ ∃ st, Event.closed i st ∈ log := by
  rw [List.countP_pos_iff]
  constructor
  · rintro ⟨e, he, hp⟩
    cases e with
    | closed k st =>
        have hk : k = i := of_decide_eq_true hp
        exact ⟨st, hk ▸ he⟩
    | _ => cases hp
  · rintro ⟨st, hst⟩
    exact ⟨_, hst, decide_eq_true rfl⟩

/-- What closes an interrupt, and on which row. -/
theorem closed_logged {st : InterruptStatus}
    (h : Event.closed i st ∈ tx.events now db) :
    st ≠ .pending
      ∧ ((∃ sid current resolution by' iid,
            tx = .resolve sid current resolution by' iid ∧ current.id = i)
        ∨ (tx = .expireStalled ∧ ∃ row, db.interrupts.get i = some row
            ∧ isStalled now row = true)) := by
  cases tx with
  | resolve sid current resolution by' iid =>
      have he := List.mem_singleton.mp h
      injection he with h₁ h₂
      subst h₁
      subst h₂
      exact ⟨(fun h => by cases h),
        Or.inl ⟨sid, current, resolution, by', iid, rfl, rfl⟩⟩
  | expireStalled =>
      obtain ⟨row, hrow, he⟩ := List.mem_map.mp h
      injection he with h₁ h₂
      subst h₁
      subst h₂
      have hmem := List.mem_filter.mp hrow
      exact ⟨(fun h => by cases h), Or.inr
        ⟨rfl, row, Table.get_of_mem hmem.1, hmem.2⟩⟩
  | startPipeline j sid rid hex => cases List.mem_singleton.mp h
  | resumeTransition rid =>
      unfold Tx.events at h
      simp only at h
      split at h
      · cases h
      · split at h
        · cases h
        · split at h
          · cases List.mem_singleton.mp h
          · cases h
  | finalizeJob sid rid =>
      unfold Tx.events at h
      simp only at h
      split at h
      · split at h
        · cases List.mem_singleton.mp h
        · cases h
      · cases h
  | failJob rid exc =>
      unfold Tx.events at h
      simp only at h
      split at h
      · cases h
      · split at h
        · cases h
        · split at h
          · cases List.mem_singleton.mp h
          · cases h
  | _ => cases h

/-- A logged close is a row that is no longer pending. -/
theorem closed_committed {st : InterruptStatus}
    (hc : tx.commit cfg now db = .ok db')
    (h : Event.closed i st ∈ tx.events now db) {row : InterruptRequest}
    (hrow : db.interrupts.get i = some row) :
    ∃ row', db'.interrupts.get i = some row' ∧ row'.status ≠ .pending := by
  have hid : row.id = i := Table.key_of_get hrow
  obtain ⟨-, ⟨sid, current, resolution, by', iid, rfl, hcur⟩ |
    ⟨rfl, row₁, hrow₁, hstalled⟩⟩ := closed_logged h
  · obtain ⟨_, -, rfl⟩ := Option.map_eq_some_iff.mp (flushed_ok.mp hc)
    simp only [Table.get_updateWhere, hrow, Option.map_some]
    refine ⟨_, rfl, ?_⟩
    rw [if_pos (by simp [hid, hcur])]
    exact fun h => by cases h
  · injection hc with hc
    subst hc
    obtain rfl : row = row₁ := Option.some.inj (hrow.symm.trans hrow₁)
    unfold expireStalled
    simp only [Table.get_updateWhere, hrow, Option.map_some]
    refine ⟨_, rfl, ?_⟩
    rw [if_pos hstalled]
    exact fun h => by cases h

/-- A transaction closes an interrupt at most once. -/
theorem countP_closes_events :
    (tx.events now db).countP (Event.closes i) ≤ 1 := by
  by_cases hpos : 0 < (tx.events now db).countP (Event.closes i)
  · obtain ⟨st, hst⟩ := countP_closes_pos.mp hpos
    obtain ⟨-, ⟨sid, current, resolution, by', iid, rfl, -⟩ | ⟨rfl, -⟩⟩ :=
      closed_logged hst
    · exact List.countP_le_length
    · -- the expired rows have distinct ids
      have hnd : ((db.interrupts.rows.filter (isStalled now)).map
          (HasKey.key (ρ := InterruptRequest))).Nodup :=
        db.interrupts.nodup.sublist
          (List.Sublist.map _ List.filter_sublist)
      have hone := List.nodup_iff_count_le_one.mp hnd i
      unfold Tx.events
      simp only
      rw [List.countP_map]
      rw [List.count_eq_countP, List.countP_map] at hone
      refine le_trans (le_of_eq (List.countP_congr fun r _ => ?_)) hone
      simp [Event.closes, HasKey.key]
  · omega

/-- Only an invocation calls the graph. -/
theorem countP_answers_events :
    (tx.events now db).countP (Event.answers i) = 0 := by
  rw [List.countP_eq_zero]
  intro e he hans
  cases e with
  | invoked rid resume k => exact invoked_not_logged he
  | _ => cases hans

end Closing

-- ========================================================== closed at most once

/-- What the log and the tables say of a closed interrupt. -/
structure ClosedOnce (s : State) : Prop where
  left : ∀ i, 0 < s.log.countP (Event.closes i) →
    ∃ row, s.db.interrupts.get i = some row ∧ row.status ≠ .pending
  once : ∀ i, s.log.countP (Event.closes i) ≤ 1
  written : ∀ i, (interventionsOf s.db i).length
    ≤ s.log.countP (Event.closes i)

section Step

variable {env : Env} {a : Action} {s s' : State} {tx : Tx} {i : Uuid}

/-- The row a transaction closes is pending. -/
theorem closes_pending (hg : ResolvesPending env a s)
    (htx : committing env a s = some tx) {st : InterruptStatus}
    (h : Event.closed i st ∈ tx.events s.now s.db) :
    ∃ row, s.db.interrupts.get i = some row ∧ row.status = .pending := by
  obtain ⟨-, ⟨sid, current, resolution, by', iid, rfl, rfl⟩ |
    ⟨rfl, row, hrow, hstalled⟩⟩ := closed_logged h
  · unfold ResolvesPending at hg
    rw [htx] at hg
    exact Option.map_eq_some_iff.mp hg
  · have hcols : row.status = .pending
        ∧ expiredBefore row.expiresAt s.now = true := by
      simpa [isStalled] using hstalled
    exact ⟨row, hrow, hcols.1⟩

/-- So it was not closed before. -/
theorem ClosedOnce.fresh (h : ClosedOnce s)
    (hg : ResolvesPending env a s) (htx : committing env a s = some tx)
    (hpos : 0 < (tx.events s.now s.db).countP (Event.closes i)) :
    s.log.countP (Event.closes i) = 0 := by
  obtain ⟨st, hst⟩ := countP_closes_pos.mp hpos
  obtain ⟨row, hrow, hpending⟩ := closes_pending hg htx hst
  by_contra hne
  obtain ⟨row', hrow', hclosed⟩ := h.left i (Nat.pos_of_ne_zero hne)
  obtain rfl : row = row' := Option.some.inj (hrow.symm.trans hrow')
  exact hclosed hpending

/-- The interventions on `i` grow with its closings. -/
theorem interventionsOf_commit {db : Db}
    (hc : Committed tx s.now s.db db) :
    (interventionsOf db i).length ≤ (interventionsOf s.db i).length
      + (tx.events s.now s.db).countP (Event.closes i) := by
  unfold interventionsOf
  rcases hc.interventions with hrows | ⟨row, hrows, hlog⟩
  · rw [hrows]
    omega
  · rw [hrows, hlog, List.filter_append, List.length_append]
    by_cases hi : row.interruptRequestId = i
    · simp [hi, Event.closes]
    · simp [hi, Event.closes]

theorem ClosedOnce.commit (h : ClosedOnce s)
    (hg : ResolvesPending env a s) (htx : committing env a s = some tx)
    (hc : tx.commit env.cfg s.now s.db = .ok s'.db)
    (hlog : s'.log = tx.events s.now s.db ++ s.log) : ClosedOnce s' := by
  have hspec := commit_spec hc
  have hsum : ∀ i, s'.log.countP (Event.closes i)
      = (tx.events s.now s.db).countP (Event.closes i)
        + s.log.countP (Event.closes i) := by
    intro i
    rw [hlog, List.countP_append]
  refine ⟨fun i hi => ?_, fun i => ?_, fun i => ?_⟩
  · by_cases hnew : 0 < (tx.events s.now s.db).countP (Event.closes i)
    · obtain ⟨st, hst⟩ := countP_closes_pos.mp hnew
      obtain ⟨row, hrow, -⟩ := closes_pending hg htx hst
      exact closed_committed hc hst hrow
    · -- nothing is logged on `i`, so its status stays
      have hold : 0 < s.log.countP (Event.closes i) := by
        have := hsum i
        omega
      obtain ⟨row, hrow, hclosed⟩ := h.left i hold
      obtain ⟨row', hrow', hmove⟩ := hspec.interrupts.persists hrow
      refine ⟨row', hrow', ?_⟩
      rcases hmove.status with hst | hst
      · rw [hst]
        exact hclosed
      · have hid : row.id = i := Table.key_of_get hrow
        rw [hid] at hst
        exact absurd (countP_closes_pos.mpr ⟨_, hst⟩) hnew
  · have hone := h.once i
    have hevents : (tx.events s.now s.db).countP (Event.closes i) ≤ 1 :=
      countP_closes_events
    have hfresh := h.fresh (i := i) hg htx
    have := hsum i
    omega
  · have hold := h.written i
    have hnew := interventionsOf_commit (i := i) hspec
    have := hsum i
    omega

/-- A step that changes neither the database nor the closings. -/
theorem ClosedOnce.unchanged (h : ClosedOnce s) (hdb : s'.db = s.db)
    (hlog : ∀ i, s'.log.countP (Event.closes i)
      = s.log.countP (Event.closes i)) : ClosedOnce s' := by
  refine ⟨fun i hi => ?_, fun i => ?_, fun i => ?_⟩
  · rw [hlog i] at hi
    rw [hdb]
    exact h.left i hi
  · rw [hlog i]
    exact h.once i
  · rw [hlog i, hdb]
    exact h.written i

theorem apply_closedOnce (hg : ResolvesPending env a s)
    (hstep : apply env a s = some s') (h : ClosedOnce s) :
    ClosedOnce s' := by
  rcases apply_db hstep with
    ⟨hdb, -, hlog | ⟨tid, reply, e, next, hnote, -, hlog⟩⟩
      | ⟨tx, htx, ⟨hdb, hlog⟩ | ⟨hc, hlog⟩⟩
  · exact h.unchanged hdb fun i => by rw [hlog]
  · obtain ⟨inv, slot, -, -, rfl⟩ := request_note hnote
    refine h.unchanged hdb fun i => ?_
    rw [hlog]
    exact List.countP_cons_of_neg (fun h => by cases h)
  · exact h.unchanged hdb fun i => by rw [hlog]
  · exact h.commit hg htx hc hlog

end Step

-- ================================================================== tokens

/-- The interrupt whose answer an actor is about to publish. -/
def Pc.offers : Pc → Option Uuid
  | .handler (.publish m) => m.interrupt
  | _ => none

/-- The interrupt whose answer a worker holds and has not yet given to
the graph. -/
def Pc.answering : Pc → Option Uuid
  | .worker (.resumeRun _ _ i) => i
  | .worker (.invoke inv _ stage) =>
      if stage.beforeCall then inv.interrupt else none
  | _ => none

/-- Where the answer to an interrupt is before a worker takes it. -/
inductive Carrier where
  | actor (tid : Nat)
  | broker (mid : Nat)
  deriving DecidableEq

/-- A carrier has the answer to interrupt `i`. -/
def State.carries (s : State) (i : Uuid) : Carrier → Prop
  | .actor tid => (s.tasks tid).pc.offers = some i
  | .broker mid => (s.sent[mid]?).bind Message.interrupt = some i

/-- The answer to an interrupt is one token. -/
structure TokenInv (s : State) : Prop where
  closed : ∀ {i c}, s.carries i c → 0 < s.log.countP (Event.closes i)
  one : ∀ {i c c'}, s.carries i c → s.carries i c' → c = c'
  held : ∀ {tid i}, (s.tasks tid).pc.answering = some i →
    ∃ mid, (s.tasks tid).message = some mid ∧ s.carries i (.broker mid)
  holder : ∀ {tid tid' i}, (s.tasks tid).pc.answering = some i →
    (s.tasks tid').pc.answering = some i → tid = tid'
  called : ∀ {i}, 0 < s.log.countP (Event.answers i) →
    (∃ mid, s.carries i (.broker mid))
      ∧ ∀ tid, (s.tasks tid).pc.answering ≠ some i
  once : ∀ i, s.log.countP (Event.answers i) ≤ 1

theorem offers_some {pc : Pc} {i : Uuid} (h : pc.offers = some i) :
    ∃ m, pc = .handler (.publish m) ∧ m.interrupt = some i := by
  unfold Pc.offers at h
  split at h
  · exact ⟨_, rfl, h⟩
  · cases h

/-- A worker that holds an answer is not done. -/
theorem answering_live {pc : Pc} {i : Uuid} (h : pc.answering = some i) :
    pc.isIdle = false := by
  unfold Pc.answering at h
  split at h
  · rfl
  · rfl
  · cases h

/-- A worker that goes on with an answer held it before. -/
theorem Worker.request_answering {env : Env} {db : Db} {reply : Reply}
    {run : Tx → Except TxError Db} {w : Worker} {r : Request Worker}
    {i : Uuid} (hr : w.request env db reply = some r)
    (hans : (Pc.worker (r.landing run)).answering = some i) :
    (Pc.worker w).answering = some i := by
  cases hl : r.landing run with
  | invoke inv slot stage =>
      rw [hl] at hans
      unfold Pc.answering at hans
      simp only at hans
      split at hans
      · rename_i hbefore
        cases Worker.request_invoke hr hl with
        | within stage₀ r hlive =>
            rcases Worker.request_invoke_inv hr with
              ⟨hover, -⟩ | ⟨-, r₁, hr₁, rfl⟩
            · rw [hlive] at hover
              cases hover
            · rw [Request.landing_map] at hl
              injection hl with _ _ hl
              rw [← hl] at hbefore
              have hbefore₀ := Stage.request_beforeCall hr₁ hbefore
              unfold Pc.answering
              simp only [hbefore₀, if_true]
              exact hans
        | started j hex db' hc hfresh =>
            rw [hfresh] at hans
            cases hans
        | continued row found session hfresh =>
            rw [hfresh] at hans
            cases hans
        | resumed row db' found session hc => exact hans
      · cases hans
  | resumeRun rid payload k =>
      exact absurd hl (Worker.landing_ne_entry (.resumeRun rid payload k) hr)
  | _ =>
      rw [hl] at hans
      cases hans

section Tokens

variable {env : Env} {a : Action} {s s' : State} {tid : Nat} {i : Uuid}

/-- A broker keeps what it carries. -/
theorem broker_kept (h : apply env a s = some s') {mid : Nat}
    (hc : s.carries i (.broker mid)) : s'.carries i (.broker mid) := by
  obtain ⟨m, hm, hi⟩ := Option.bind_eq_some_iff.mp hc
  exact Option.bind_eq_some_iff.mpr ⟨m, apply_sent_kept h hm, hi⟩

/-- Closings and answers are never unlogged. -/
theorem countP_log_le (h : apply env a s = some s') (p : Event → Bool) :
    s.log.countP p ≤ s'.log.countP p := by
  obtain ⟨new, hlog⟩ := apply_log h
  rw [hlog, List.countP_append]
  omega

/-- An actor comes to offer an answer by committing its resolution. -/
theorem offers_origin (h : apply env a s = some s')
    (ho : (s'.tasks tid).pc.offers = some i) :
    (s.tasks tid).pc.offers = some i
      ∨ ∃ reply tx, a = .advance tid reply ∧ committing env a s = some tx
        ∧ Event.closed i .resolved ∈ tx.events s.now s.db
        ∧ Event.closed i .resolved ∈ s'.log := by
  obtain ⟨m, hpc, hm⟩ := offers_some ho
  rcases apply_handler h hpc rfl Handler.noConfusion with
    heq | ⟨reply, hd, r, ha, -, hr, hreq, rfl, hl⟩
  · rw [heq] at ho
    exact Or.inl ho
  · obtain ⟨tx, raised, db', rfl, hc, hp⟩ := Handler.request_publish hr hl
    cases hp with
    | resolve sid current resolution by' iid rid value =>
        injection hm with hm
        subst hm
        refine Or.inr ⟨reply, .resolve sid current resolution by' iid,
          ha, ?_, List.mem_singleton_self _, ?_⟩
        · rw [ha]
          unfold committing
          simp only [hreq, Request.map]
        · rw [(perform_commit_map hc).2]
          exact List.mem_append_left _ (List.mem_singleton_self _)
    | _ => cases hm

/-- A message comes to carry an answer by being published, and the
actor that published it has nothing left to offer. -/
theorem broker_origin (h : apply env a s = some s') {mid : Nat}
    (hc : s'.carries i (.broker mid)) :
    s.carries i (.broker mid)
      ∨ (mid = s.sent.length ∧ ∃ tid, s.carries i (.actor tid)
        ∧ ¬ s'.carries i (.actor tid)) := by
  unfold State.carries at hc
  simp only at hc
  rcases apply_sent h with heq | ⟨tid, reply, m, next, -, hreq, rfl, heq⟩
  · rw [heq] at hc
    exact Or.inl hc
  · rw [heq] at hc
    by_cases hlt : mid < s.sent.length
    · rw [List.getElem?_append_left hlt] at hc
      exact Or.inl hc
    · obtain ⟨m', hm', hi⟩ := Option.bind_eq_some_iff.mp hc
      obtain rfl : mid = s.sent.length := by
        have hlt' := (List.getElem?_eq_some_iff.mp hm').1
        rw [List.length_append, List.length_singleton] at hlt'
        omega
      obtain rfl : m = m' := by simpa using hm'
      refine Or.inr ⟨rfl, tid, ?_⟩
      unfold State.carries
      simp only [perform_pc]
      rcases request_cases hreq with
        ⟨hd, r₀, hpc, hr₀, hmap⟩ | ⟨w, r₀, hpc, hr₀, hmap⟩
      · cases r₀ with
        | send m₀ next₀ =>
            cases hmap
            rcases Handler.request_send hr₀ with ⟨rfl, rfl⟩ | ⟨j, rfl⟩
            · rw [hpc]
              exact ⟨hi, (fun h => by cases h)⟩
            · cases hi
        | _ => cases hmap
      · cases r₀ with
        | send m₀ next₀ =>
            cases hmap
            obtain ⟨rid, rfl⟩ := Worker.request_send hr₀
            cases hi
        | _ => cases hmap

/-- A worker comes to hold an answer by a delivery. -/
theorem answering_origin (h : apply env a s = some s')
    (hans : (s'.tasks tid).pc.answering = some i) :
    ((s.tasks tid).pc.answering = some i
        ∧ (s'.tasks tid).message = (s.tasks tid).message)
      ∨ ∃ mid, a = .deliver tid mid ∧ s.carries i (.broker mid)
        ∧ (s'.tasks tid).message = some mid := by
  rcases apply_task h tid with
    heq | hidle | ⟨entry, -, heq⟩ | ⟨mid, m, rfl, hm, heq⟩
      | ⟨reply, r, -, hr, rfl⟩
  · rw [heq] at hans
    exact Or.inl ⟨hans, by rw [heq]⟩
  · rw [hidle] at hans
    cases hans
  · rw [heq] at hans
    cases hans
  · rw [heq] at hans ⊢
    refine Or.inr ⟨mid, rfl, ?_, rfl⟩
    cases m with
    | resumeRun rid payload k =>
        exact Option.bind_eq_some_iff.mpr ⟨_, hm, hans⟩
    | _ => cases hans
  · rw [perform_pc] at hans
    rcases request_cases hr with
      ⟨hd, r₀, hpc, hr₀, rfl⟩ | ⟨w, r₀, hpc, hr₀, rfl⟩
    · rw [Request.landing_map] at hans
      cases hans
    · refine Or.inl ⟨?_, perform_message (answering_live hans)⟩
      rw [Request.landing_map] at hans
      rw [hpc]
      exact Worker.request_answering hr₀ hans

/-- The graph is called with an answer by the worker that holds it. -/
theorem answers_origin (h : apply env a s = some s') (i : Uuid) :
    s'.log.countP (Event.answers i) = s.log.countP (Event.answers i)
      ∨ (s'.log.countP (Event.answers i)
          = s.log.countP (Event.answers i) + 1
        ∧ ∃ tid, (s.tasks tid).pc.answering = some i
          ∧ (s'.tasks tid).pc.answering = none) := by
  rcases apply_db h with
    ⟨-, -, hlog | ⟨tid, reply, e, next, hnote, hs', hlog⟩⟩
      | ⟨tx, htx, ⟨-, hlog⟩ | ⟨-, hlog⟩⟩
  · exact Or.inl (by rw [hlog])
  · obtain ⟨inv, slot, hpc, rfl, rfl⟩ := request_note hnote
    rw [hlog]
    by_cases hi : inv.interrupt = some i
    · refine Or.inr ⟨List.countP_cons_of_pos ?_, tid, ?_, ?_⟩
      · unfold Event.answers
        rw [hi]
        exact decide_eq_true rfl
      · rw [hpc]
        exact hi
      · rw [hs', perform_pc]
        rfl
    · refine Or.inl (List.countP_cons_of_neg ?_)
      unfold Event.answers
      cases hk : inv.interrupt with
      | none => exact fun h => by cases h
      | some k =>
          have hne : k ≠ i := by
            rintro rfl
            exact hi hk
          simp [hne]
  · exact Or.inl (by rw [hlog])
  · rw [hlog, List.countP_append, countP_answers_events]
    exact Or.inl (Nat.zero_add _)

/-- An answer is offered only where no carrier had it. -/
theorem TokenInv.unoffered (h : TokenInv s) (hc : ClosedOnce s)
    (hg : ResolvesPending env a s) {tx : Tx}
    (htx : committing env a s = some tx)
    (he : Event.closed i .resolved ∈ tx.events s.now s.db) (c : Carrier) :
    ¬ s.carries i c := by
  intro hcarry
  have hpos := h.closed hcarry
  have hzero := hc.fresh hg htx (countP_closes_pos.mpr ⟨_, he⟩)
  omega

/-- A carrier had the answer before the step, or it is the actor that
resolved the interrupt, or the message that a carrier published. -/
theorem carries_origin (h : apply env a s = some s') {c : Carrier}
    (hc : s'.carries i c) :
    s.carries i c
      ∨ (∃ tid reply tx, c = .actor tid ∧ a = .advance tid reply
        ∧ committing env a s = some tx
        ∧ Event.closed i .resolved ∈ tx.events s.now s.db
        ∧ Event.closed i .resolved ∈ s'.log)
      ∨ (c = .broker s.sent.length ∧ ∃ tid, s.carries i (.actor tid)
        ∧ ¬ s'.carries i (.actor tid)) := by
  cases c with
  | actor tid =>
      rcases offers_origin h hc with ho | ⟨reply, tx, ha, htx, he, hl⟩
      · exact Or.inl ho
      · exact Or.inr (Or.inl ⟨tid, reply, tx, rfl, ha, htx, he, hl⟩)
  | broker mid =>
      rcases broker_origin h hc with hb | ⟨rfl, hmoved⟩
      · exact Or.inl hb
      · exact Or.inr (Or.inr ⟨rfl, hmoved⟩)

/-- The one carrier of an answer after a step. -/
theorem TokenInv.one_step (h : TokenInv s) (hclosed : ClosedOnce s)
    (hg : ResolvesPending env a s) (hstep : apply env a s = some s')
    {c c' : Carrier} (hc : s'.carries i c) (hc' : s'.carries i c') :
    c = c' := by
  rcases carries_origin hstep hc with
    ho | ⟨tid, reply, tx, rfl, ha, htx, he, -⟩ | ⟨rfl, tid, ho, hgone⟩
  · rcases carries_origin hstep hc' with
      ho' | ⟨tid', _, tx', -, -, htx', he', -⟩ | ⟨rfl, tid', ho', hgone'⟩
    · exact h.one ho ho'
    · exact absurd ho (h.unoffered hclosed hg htx' he' c)
    · obtain rfl := h.one ho ho'
      exact absurd hc hgone'
  · rcases carries_origin hstep hc' with
      ho' | ⟨tid', reply', tx', rfl, ha', -⟩ | ⟨-, tid', ho', -⟩
    · exact absurd ho' (h.unoffered hclosed hg htx he c')
    · rw [ha] at ha'
      injection ha' with htid
      rw [htid]
    · exact absurd ho' (h.unoffered hclosed hg htx he _)
  · rcases carries_origin hstep hc' with
      ho' | ⟨tid', _, tx', -, -, htx', he', -⟩ | ⟨rfl, -⟩
    · obtain rfl := h.one ho ho'
      exact absurd hc' hgone
    · exact absurd ho (h.unoffered hclosed hg htx' he' _)
    · rfl

/-- The one holder of an answer after a step. -/
theorem TokenInv.holder_step (h : TokenInv s) (hg : DeliversOnce a s)
    (hstep : apply env a s = some s') {tid tid' : Nat}
    (ha : (s'.tasks tid).pc.answering = some i)
    (ha' : (s'.tasks tid').pc.answering = some i) : tid = tid' := by
  -- a delivery finds no holder
  have hnew : ∀ {tid tid' mid}, a = .deliver tid mid →
      s.carries i (.broker mid) → (s.tasks tid').pc.answering ≠ some i := by
    intro tid tid' mid hdel hmid hold
    subst hdel
    obtain ⟨mid', hmsg, hcarry⟩ := h.held hold
    have heq := h.one hmid hcarry
    injection heq with heq
    exact (hg i hmid).1 tid' (heq ▸ hmsg)
  rcases answering_origin hstep ha with ⟨ho, -⟩ | ⟨mid, hdel, hmid, -⟩
  · rcases answering_origin hstep ha' with ⟨ho', -⟩ | ⟨mid', hdel', hmid', -⟩
    · exact h.holder ho ho'
    · exact absurd ho (hnew hdel' hmid')
  · rcases answering_origin hstep ha' with ⟨ho', -⟩ | ⟨mid', hdel', -⟩
    · exact absurd ho' (hnew hdel hmid)
    · rw [hdel] at hdel'
      injection hdel'

theorem TokenInv.step (h : TokenInv s) (hclosed : ClosedOnce s)
    (hg : SingleResume env a s) (hstep : apply env a s = some s') :
    TokenInv s' := by
  refine ⟨fun {i c} hc => ?_, h.one_step hclosed hg.1 hstep,
    fun {tid i} hans => ?_, h.holder_step hg.2 hstep, fun {i} hpos => ?_,
    fun i => ?_⟩
  · rcases carries_origin hstep hc with
      ho | ⟨tid, reply, tx, -, -, -, -, hl⟩ | ⟨-, tid, ho, -⟩
    · exact lt_of_lt_of_le (h.closed ho) (countP_log_le hstep _)
    · exact countP_closes_pos.mpr ⟨_, hl⟩
    · exact lt_of_lt_of_le (h.closed ho) (countP_log_le hstep _)
  · rcases answering_origin hstep hans with ⟨ho, hmsg⟩ | ⟨mid, -, hmid, hmsg⟩
    · obtain ⟨mid, hm, hcarry⟩ := h.held ho
      exact ⟨mid, hmsg.trans hm, broker_kept hstep hcarry⟩
    · exact ⟨mid, hmsg, broker_kept hstep hmid⟩
  · rcases answers_origin hstep i with heq | ⟨-, tid, hans, hdone⟩
    · -- called before: nothing holds it, and it is not delivered again
      rw [heq] at hpos
      obtain ⟨⟨mid, hcarry⟩, hnone⟩ := h.called hpos
      refine ⟨⟨mid, broker_kept hstep hcarry⟩, fun tid hans => ?_⟩
      rcases answering_origin hstep hans with ⟨ho, -⟩ | ⟨mid', rfl, hmid', -⟩
      · exact hnone tid ho
      · have hzero := (hg.2 i hmid').2
        omega
    · -- called now: its only holder has passed it on
      obtain ⟨mid, -, hcarry⟩ := h.held hans
      refine ⟨⟨mid, broker_kept hstep hcarry⟩, fun tid' hans' => ?_⟩
      rcases answering_origin hstep hans' with ⟨ho, -⟩ | ⟨mid', rfl, hmid', -⟩
      · obtain rfl := h.holder hans ho
        rw [hdone] at hans'
        cases hans'
      · obtain ⟨mid₀, hmsg, hcarry₀⟩ := h.held hans
        have heq := h.one hmid' hcarry₀
        injection heq with heq
        exact (hg.2 i hmid').1 tid (heq ▸ hmsg)
  · rcases answers_origin hstep i with heq | ⟨heq, tid, hans, -⟩
    · rw [heq]
      exact h.once i
    · have hzero : s.log.countP (Event.answers i) = 0 := by
        by_contra hne
        exact (h.called (Nat.pos_of_ne_zero hne)).2 tid hans
      omega

end Tokens

-- ==================================================================== runs

theorem countP_resumes_le (log : List Event) (i : Uuid) :
    log.countP (Event.resumes i) ≤ log.countP (Event.answers i) := by
  refine List.countP_mono_left fun e _ he => ?_
  cases e with
  | invoked rid resume k =>
      cases resume with
      | false => cases he
      | true => cases k with
        | none => cases he
        | some k => exact he
  | _ => cases he

/-- In every run of the system whose resolutions commit on pending rows
and whose answers are not delivered twice, each interrupt is closed,
decided and resumed at most once. -/
theorem resumed_once_of_single_deliveries {env : Env} {s : State}
    (h : Reaches env (SingleResume env) s) : ResumedOnce s := by
  have hinv : ClosedOnce s ∧ TokenInv s := by
    refine Lts.Reachable.invariant
      (P := fun s => ClosedOnce s ∧ TokenInv s) ?_ ?_ h
    · refine ⟨⟨(fun _ h => by cases h), fun _ => Nat.zero_le 1,
        fun _ => Nat.zero_le 0⟩, ?_⟩
      have hnone : ∀ {i c}, ¬ State.init.carries i c := by
        intro i c hc
        cases c with
        | actor tid => cases hc
        | broker mid => cases hc
      exact ⟨fun hc => absurd hc hnone, fun hc => absurd hc hnone,
        (fun h => by cases h), (fun h => by cases h), (fun h => by cases h),
        fun _ => Nat.zero_le 1⟩
    · intro s a s' _ hs hg hstep
      exact ⟨apply_closedOnce hg.1 hstep hs.1, hs.2.step hs.1 hg hstep⟩
  intro i
  have hclosings := hinv.1.once i
  have hwritten := hinv.1.written i
  have hanswers := hinv.2.once i
  have hresumes := countP_resumes_le s.log i
  omega

-- =============================================================== scenarios

/-- Actors 2 and 4 read the pending interrupt before either of them
updates it. -/
def answeredTwice : List Action :=
  [.start 2 (.resolve 10 answer none), .start 4 (.resolve 10 answer none),
    .advance 2 .ok, .advance 4 .ok, .advance 2 (.fresh [40] ""),
    .advance 4 (.fresh [41] "")]

/-- A decidable case of the condition: messages go to the first `n`
actors only, and an answer to none of them twice. -/
def FewWorkers (n : Nat) (env : Env) (a : Action) (s : State) : Prop :=
  ResolvesPending env a s ∧
    match a with
    | .deliver tid mid => tid < n ∧
        match (s.sent[mid]?).bind Message.interrupt with
        | some i => (∀ t < n, (s.tasks t).message ≠ some mid)
            ∧ s.log.countP (Event.answers i) = 0
        | none => True
    | _ => True

instance (env : Env) (a : Action) (s : State) :
    Decidable (ResolvesPending env a s) := by
  dsimp only [ResolvesPending]
  generalize committing env a s = tx
  induction tx using Option.casesOn with
  | none => infer_instance
  | some tx => induction tx using Tx.casesOn <;> infer_instance

instance (n : Nat) (env : Env) (a : Action) (s : State) :
    Decidable (FewWorkers n env a s) := by
  dsimp only [FewWorkers]
  refine @instDecidableAnd _ _ inferInstance ?_
  induction a using Action.casesOn with
  | deliver tid mid =>
      refine @instDecidableAnd _ _ inferInstance ?_
      generalize (s.sent[mid]?).bind Message.interrupt = found
      induction found using Option.casesOn <;> infer_instance
  | _ => infer_instance

section FewWorkers

variable {n : Nat} {env : Env} {a : Action} {s s' : State}

/-- Only the first `n` actors hold messages. -/
theorem messages_few (h : Reaches env (FewWorkers n env) s) :
    ∀ tid mid, (s.tasks tid).message = some mid → tid < n := by
  refine Lts.Reachable.invariant (P := fun s =>
    ∀ tid mid, (s.tasks tid).message = some mid → tid < n) ?_ ?_ h
  · intro tid mid hm
    cases hm
  · intro s a s' _ ih hg hstep tid mid hm
    rcases message_origin hstep hm with ho | rfl
    · exact ih tid mid ho
    · exact hg.2.1

theorem reaches_singleResume (h : Reaches env (FewWorkers n env) s) :
    Reaches env (SingleResume env) s := by
  refine Lts.Reachable.invariant
    (P := fun s => Reaches env (SingleResume env) s) .init ?_ h
  intro s a s' hr ih hg hstep
  refine .step a ih ⟨hg.1, ?_⟩ hstep
  cases a with
  | deliver tid mid =>
      intro i hi
      have honce := hg.2.2
      rw [hi] at honce
      refine ⟨fun t ht => ?_, honce.2⟩
      exact honce.1 t (messages_few hr t mid ht) ht
  | _ => trivial

end FewWorkers

/-- One question, one answer: the run is resumed once. -/
theorem answered_question_resumed_once :
    ∃ s, Lts.run (Lts.guarded (apply Env.default)
        (FewWorkers 4 Env.default)) State.init (asked ++ answered) = some s
      ∧ s.log.countP (Event.resumes 30) = 1 ∧ ResumedOnce s := by
  obtain ⟨s, hs⟩ := Option.isSome_iff_exists.mp
    (show (Lts.run (Lts.guarded (apply Env.default)
      (FewWorkers 4 Env.default)) State.init
      (asked ++ answered)).isSome by decide +kernel)
  have hlog : (Lts.run (Lts.guarded (apply Env.default)
      (FewWorkers 4 Env.default)) State.init (asked ++ answered)).map
      (fun s => s.log.countP (Event.resumes 30)) = some 1 := by
    decide +kernel
  rw [hs] at hlog
  exact ⟨s, hs, Option.some.inj hlog, resumed_once_of_single_deliveries
    (reaches_singleResume (Lts.reachable_of_guarded_run .init hs))⟩

/-- Two resolutions of one interrupt both commit. -/
theorem interrupt_resolved_twice :
    ¬ ∀ s, Reaches Env.default Lts.Always s → ResumedOnce s := by
  intro h
  obtain ⟨s, hs⟩ := Option.isSome_iff_exists.mp
    (show (Lts.run (apply Env.default) State.init
      (asked ++ answeredTwice)).isSome by decide)
  have hcount : (Lts.run (apply Env.default) State.init
      (asked ++ answeredTwice)).map
      (fun s => s.log.countP (Event.closes 30)) = some 2 := by decide
  rw [hs] at hcount
  have htwo : s.log.countP (Event.closes 30) = 2 :=
    Option.some.inj hcount
  have honce := (h s (Lts.reachable_of_run .init hs) 30).1
  omega

end LegalBot
