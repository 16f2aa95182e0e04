/-
Work that is still to be done: where a message is between its publisher
and the task that executes it.

# The three places

A message waits while an actor is about to publish it, while it lies in
the broker unacknowledged and no task holds it, or while a task is at
its entry. `waits_step` says that it stays in one of them until its task
makes its first request, provided the publisher does not fail and a task
that crashes at the entry leaves the message to be delivered again
(`KeepsMessage`).

A delivered message is held by its task until the task ends. A duplicate
delivery that ends acknowledges the message for both, so a crash is
harmless only while nobody else holds it (`Redelivers`).

# Runs

`Message.run` and `Worker.run` tell which run a message or a task is
about; `State.Busy` collects a run's unfinished tasks.
-/
import LegalBot.Orchestrator.Invariants
import LegalBot.Orchestrator.Effects

namespace LegalBot

open Relational (HasKey Table)

-- ============================================================ acknowledging

section Acked

variable {env : Env} {s s' : State} {a : Action} {tid : Nat}

theorem continueAt_acked (pc : Pc) :
    (s.continueAt tid pc).acked = s.acked
      ∨ (pc.isIdle = true ∧ ∃ mid, (s.tasks tid).message = some mid
        ∧ (s.continueAt tid pc).acked = insert mid s.acked) := by
  unfold State.continueAt
  by_cases hidle : pc.isIdle = true
  · rw [if_pos hidle]
    cases hm : (s.tasks tid).message with
    | none => exact Or.inl rfl
    | some mid => exact Or.inr ⟨hidle, mid, rfl, rfl⟩
  · rw [if_neg hidle]
    exact Or.inl rfl

theorem perform_acked (r : Request Pc) :
    (s.perform env tid r).acked = s.acked
      ∨ ((r.landing (Tx.commit env.cfg s.now s.db)).isIdle = true
        ∧ ∃ mid, (s.tasks tid).message = some mid
          ∧ (s.perform env tid r).acked = insert mid s.acked) := by
  cases r with
  | commit tx ok raised =>
      unfold State.perform Request.landing
      simp only
      cases tx.commit env.cfg s.now s.db with
      | ok db => exact continueAt_acked ok
      | error e => exact continueAt_acked (raised e.message)
  | _ => exact continueAt_acked _

/-- A message is acknowledged by a task that holds it and ends. -/
theorem apply_acked (h : apply env a s = some s') :
    s'.acked = s.acked ∨ ∃ tid reply r mid, a = .advance tid reply
      ∧ s.request env tid reply = some r
      ∧ s' = s.perform env tid r
      ∧ (r.landing (Tx.commit env.cfg s.now s.db)).isIdle = true
      ∧ (s.tasks tid).message = some mid
      ∧ s'.acked = insert mid s.acked := by
  cases a with
  | advance tid reply =>
      obtain ⟨r, hr, rfl⟩ := Option.map_eq_some_iff.mp h
      rcases perform_acked r with hsame | ⟨hidle, mid, hm, hins⟩
      · exact Or.inl hsame
      · exact Or.inr ⟨tid, reply, r, mid, rfl, hr, rfl, hidle, hm, hins⟩
  | tick d =>
      injection h with h
      subst h
      exact Or.inl rfl
  | crash tid =>
      injection h with h
      subst h
      exact Or.inl rfl
  | start tid entry =>
      unfold apply at h
      simp only at h
      split at h
      · injection h with h
        subst h
        exact Or.inl rfl
      · cases h
  | deliver tid mid =>
      unfold apply at h
      simp only at h
      split at h
      · obtain ⟨m, -, rfl⟩ := Option.map_eq_some_iff.mp h
        exact Or.inl rfl
      · cases h

/-- A task that holds a message held it before or just got it. -/
theorem message_origin (h : apply env a s = some s') {mid : Nat}
    (hm : (s'.tasks tid).message = some mid) :
    (s.tasks tid).message = some mid ∨ a = .deliver tid mid := by
  rcases apply_task h tid with
    heq | hidle | ⟨entry, -, heq⟩ | ⟨mid', m, rfl, -, heq⟩
      | ⟨reply, r, -, hr, rfl⟩
  · rw [heq] at hm
    exact Or.inl hm
  · rw [hidle] at hm
    cases hm
  · rw [heq] at hm
    cases hm
  · rw [heq] at hm
    injection hm with hm
    exact Or.inr (by rw [hm])
  · rcases perform_held r with hnone | hkept
    · rw [hnone] at hm
      cases hm
    · exact Or.inl (hkept.symm.trans hm)

/-- A delivered message was sent. -/
theorem deliver_sent {mid : Nat} (h : apply env (.deliver tid mid) s
    = some s') : (s.tasks tid).pc.isIdle = true ∧ mid ∉ s.acked
      ∧ ∃ m, s.sent[mid]? = some m := by
  unfold apply at h
  simp only at h
  split at h
  · rename_i hg
    obtain ⟨m, hm, -⟩ := Option.map_eq_some_iff.mp h
    exact ⟨hg.1, hg.2, m, hm⟩
  · cases h

/-- Tasks hold, and acknowledge, messages that were sent. -/
structure BrokerBounded (s : State) : Prop where
  held : ∀ {tid mid}, (s.tasks tid).message = some mid →
    mid < s.sent.length
  acked : ∀ {mid}, mid ∈ s.acked → mid < s.sent.length

theorem sent_length_le (h : apply env a s = some s') :
    s.sent.length ≤ s'.sent.length := by
  rcases apply_sent h with heq | ⟨_, _, m, _, -, -, -, heq⟩
  · rw [heq]
  · rw [heq, List.length_append]
    exact Nat.le_add_right _ _

theorem reaches_brokerBounded {G : Action → State → Prop}
    (h : Reaches env G s) : BrokerBounded s := by
  refine Lts.Reachable.invariant ?_ ?_ h
  · constructor
    · intro tid mid hm
      cases hm
    · intro mid hm
      exact absurd hm (Finset.notMem_empty mid)
  · intro s a s' _ ih _ hstep
    have hle := sent_length_le hstep
    constructor
    · intro tid mid hm
      rcases message_origin hstep hm with hm | rfl
      · exact lt_of_lt_of_le (ih.held hm) hle
      · obtain ⟨-, -, m, hsent⟩ := deliver_sent hstep
        exact lt_of_lt_of_le (List.getElem?_eq_some_iff.mp hsent).1 hle
    · intro mid hm
      rcases apply_acked hstep with
        hsame | ⟨tid, -, -, mid', -, -, -, -, hheld, hins⟩
      · rw [hsame] at hm
        exact lt_of_lt_of_le (ih.acked hm) hle
      · rw [hins, Finset.mem_insert] at hm
        rcases hm with rfl | hm
        · exact lt_of_lt_of_le (ih.held hheld) hle
        · exact lt_of_lt_of_le (ih.acked hm) hle

/-- A request moves the actor in a state with the same actors. -/
theorem perform_continueAt (s : State) (r : Request Pc) :
    ∃ s₀ : State, s₀.tasks = s.tasks ∧ s.perform env tid r
      = s₀.continueAt tid (r.landing (Tx.commit env.cfg s.now s.db)) := by
  cases r with
  | goto next => exact ⟨s, rfl, rfl⟩
  | commit tx ok raised =>
      unfold State.perform Request.landing
      simp only
      split
      · rename_i db _
        exact ⟨{ s with
          db := db
          log := tx.events s.now s.db ++ s.log }, rfl, rfl⟩
      · exact ⟨s, rfl, rfl⟩
  | send m next => exact ⟨{ s with sent := s.sent ++ [m] }, rfl, rfl⟩
  | note e next => exact ⟨{ s with log := e :: s.log }, rfl, rfl⟩
  | acquire j next =>
      exact ⟨{ s with inFlight := insert j s.inFlight }, rfl, rfl⟩
  | release j next =>
      exact ⟨{ s with inFlight := s.inFlight.erase j }, rfl, rfl⟩

/-- An actor that is done holds no message. -/
theorem perform_done {r : Request Pc}
    (h : (r.landing (Tx.commit env.cfg s.now s.db)).isIdle = true) :
    ((s.perform env tid r).tasks tid).message = none := by
  obtain ⟨s₀, -, heq⟩ := perform_continueAt s r
  rw [heq]
  unfold State.continueAt
  simp [h]

/-- What holds of a task when it starts its message, and is kept by every
request that does not end it, holds of the tasks that hold the
message. -/
theorem reaches_held {G : Action → State → Prop} {Q : Message → Pc → Prop}
    (hentry : ∀ m, Q m (.worker m.entry))
    (hreq : ∀ {s : State} {tid reply r m}, Q m (s.tasks tid).pc →
      s.request env tid reply = some r →
      (r.landing (Tx.commit env.cfg s.now s.db)).isIdle = false →
      Q m (r.landing (Tx.commit env.cfg s.now s.db)))
    (h : Reaches env G s) : ∀ {tid mid m},
      (s.tasks tid).message = some mid → s.sent[mid]? = some m →
      Q m (s.tasks tid).pc := by
  refine Lts.Reachable.invariant (P := fun s => ∀ {tid mid m},
    (s.tasks tid).message = some mid → s.sent[mid]? = some m →
    Q m (s.tasks tid).pc) ?_ ?_ h
  · intro tid mid m hm
    cases hm
  intro s a s' hr ih _ hstep tid mid m hm hsent'
  -- the broker does not change a message it has
  have hheld : (s.tasks tid).message = some mid →
      Q m (s.tasks tid).pc := by
    intro hm
    have hlt := (reaches_brokerBounded hr).held hm
    have hsent : s.sent[mid]? = some s.sent[mid] :=
      List.getElem?_eq_getElem hlt
    rw [apply_sent_kept hstep hsent, Option.some.injEq] at hsent'
    exact ih hm (hsent' ▸ hsent)
  rcases apply_task hstep tid with
    heq | hidle | ⟨_, -, heq⟩ | ⟨mid', m', -, hsent, heq⟩
      | ⟨reply, r, -, hr, rfl⟩
  · rw [heq] at hm ⊢
    exact hheld hm
  · rw [hidle] at hm
    cases hm
  · rw [heq] at hm
    cases hm
  · rw [heq] at hm
    injection hm with hm
    subst hm
    rw [apply_sent_kept hstep hsent, Option.some.injEq] at hsent'
    rw [heq, hsent']
    exact hentry m
  · cases hlive : (r.landing (Tx.commit env.cfg s.now s.db)).isIdle with
    | true =>
        rw [perform_done hlive] at hm
        cases hm
    | false =>
        rw [perform_message hlive] at hm
        rw [perform_pc]
        exact hreq (hheld hm) hr hlive

end Acked

-- ============================================================== live actors

/-- An actor that is not done stays where it is, crashes, or makes a
request. -/
theorem apply_live {env : Env} {s s' : State} {a : Action} {tid : Nat}
    (h : apply env a s = some s') (hlive : (s.tasks tid).pc.isIdle = false) :
    s'.tasks tid = s.tasks tid
      ∨ (a = .crash tid ∧ s' = { s with
          tasks := Function.update s.tasks tid ⟨.idle, none⟩ })
      ∨ ∃ reply r, a = .advance tid reply
        ∧ s.request env tid reply = some r
        ∧ s' = s.perform env tid r := by
  cases a with
  | tick d =>
      injection h with h
      subst h
      exact Or.inl rfl
  | crash t =>
      injection h with h
      subst h
      by_cases ht : tid = t
      · subst ht
        exact Or.inr (Or.inl ⟨rfl, rfl⟩)
      · exact Or.inl (Function.update_of_ne ht _ _)
  | advance t reply =>
      obtain ⟨r, hr, rfl⟩ := Option.map_eq_some_iff.mp h
      by_cases ht : tid = t
      · subst ht
        exact Or.inr (Or.inr ⟨reply, r, rfl, hr, rfl⟩)
      · exact Or.inl (perform_other ht)
  | start t entry =>
      unfold apply at h
      simp only at h
      split at h
      · rename_i hg
        injection h with h
        subst h
        by_cases ht : tid = t
        · subst ht
          rw [hlive] at hg
          cases hg.1
        · exact Or.inl (Function.update_of_ne ht _ _)
      · cases h
  | deliver t mid =>
      unfold apply at h
      simp only at h
      split at h
      · rename_i hg
        obtain ⟨m, -, rfl⟩ := Option.map_eq_some_iff.mp h
        by_cases ht : tid = t
        · subst ht
          rw [hlive] at hg
          cases hg.1
        · exact Or.inl (Function.update_of_ne ht _ _)
      · cases h

-- ================================================================== waiting

/-- The message lies in the broker, unacknowledged, and nobody holds
it. -/
def State.Queued (s : State) (m : Message) : Prop :=
  ∃ mid, s.sent[mid]? = some m ∧ mid ∉ s.acked
    ∧ ∀ tid, (s.tasks tid).message ≠ some mid

/-- The message is published, delivered or executed next. -/
def State.Waits (s : State) (m : Message) : Prop :=
  s.Queued m ∨ (∃ tid, (s.tasks tid).pc.carries = some m)

/-- If the task crashes, its message `m` is delivered again. -/
def State.Redelivers (s : State) (tid : Nat) (m : Message) : Prop :=
  ∃ mid, (s.tasks tid).message = some mid ∧ s.sent[mid]? = some m
    ∧ mid ∉ s.acked
    ∧ ∀ tid', tid' ≠ tid → (s.tasks tid').message ≠ some mid

/-- No publisher of `m` fails, and a task that crashes at its entry
leaves it to be delivered again. -/
def KeepsMessage (m : Message) (a : Action) (s : State) : Prop :=
  match a with
  | .advance tid (.raised _) =>
      (s.tasks tid).pc ≠ .handler (.publish m)
  | .crash tid => (s.tasks tid).pc ≠ .handler (.publish m)
      ∧ ((s.tasks tid).pc = .worker m.entry → s.Redelivers tid m)
  | _ => True

section Waiting

variable {env : Env} {s s' : State} {a : Action} {m : Message}

/-- What an actor at the publication of a message asks for. -/
theorem publish_request {now : Time} {db : Db} {inFlight : Finset Uuid}
    {reply : Reply} {r : Request Handler}
    (h : (Handler.publish m).request env now db inFlight reply = some r) :
    r = .send m .done ∨ ∃ e, reply = .raised e := by
  unfold Handler.request at h
  simp only at h
  split at h
  · injection h with h
    exact Or.inl h.symm
  · exact Or.inr ⟨_, rfl⟩
  · cases h

/-- A carrying actor is not idle. -/
theorem carries_not_idle {pc : Pc} (h : pc.carries = some m) :
    pc.isIdle = false := by
  rcases carries_cases h with rfl | rfl
  · rfl
  · cases m <;> rfl

/-- A message in the broker that nobody holds stays there until it is
delivered. -/
theorem queued_step (h : apply env a s = some s') (hq : s.Queued m) :
    s'.Waits m := by
  obtain ⟨mid, hsent, hack, hheld⟩ := hq
  by_cases hdel : ∃ tid, a = .deliver tid mid
  · obtain ⟨tid, rfl⟩ := hdel
    refine Or.inr ⟨tid, ?_⟩
    unfold apply at h
    simp only at h
    split at h
    · rw [hsent] at h
      injection h with h
      subst h
      simp
    · cases h
  · refine Or.inl ⟨mid, apply_sent_kept h hsent, ?_, ?_⟩
    · rcases apply_acked h with
        hsame | ⟨tid, -, -, mid', -, -, -, -, hm, hins⟩
      · rw [hsame]
        exact hack
      · rw [hins, Finset.mem_insert, not_or]
        refine ⟨?_, hack⟩
        rintro rfl
        exact hheld tid hm
    · intro tid hm
      rcases message_origin h hm with hm | ha
      · exact hheld tid hm
      · exact hdel ⟨tid, ha⟩

/-- A message waits until its task makes its first request. -/
theorem waits_step (hb : BrokerBounded s) (h : apply env a s = some s')
    (hg : KeepsMessage m a s) (hw : s.Waits m) :
    s'.Waits m ∨ ∃ tid reply r, a = .advance tid reply
      ∧ (s.tasks tid).pc = .worker m.entry
      ∧ s.request env tid reply = some r
      ∧ s' = s.perform env tid r := by
  rcases hw with hq | ⟨tid, hc⟩
  · exact Or.inl (queued_step h hq)
  rcases apply_live h (carries_not_idle hc) with
    heq | ⟨rfl, rfl⟩ | ⟨reply, r, rfl, hr, rfl⟩
  · refine Or.inl (Or.inr ⟨tid, ?_⟩)
    rw [heq]
    exact hc
  · -- a crash at the entry leaves the message in the broker
    rcases carries_cases hc with hpc | hpc
    · exact absurd hpc hg.1
    · obtain ⟨mid, hm, hsent, hack, halone⟩ := hg.2 hpc
      refine Or.inl (Or.inl ⟨mid, hsent, hack, fun tid' => ?_⟩)
      by_cases ht : tid' = tid
      · subst ht
        simp
      · simp only [Function.update_of_ne ht]
        exact halone tid' ht
  · rcases carries_cases hc with hpc | hpc
    · -- the publisher sends it: it is the last message of the broker
      obtain ⟨hd, r₀, hhd, hr₀, rfl⟩ | ⟨w, r₀, hw, -, -⟩ := request_cases hr
      · obtain rfl : hd = .publish m := by
          rw [hpc] at hhd
          injection hhd with hhd
          exact hhd.symm
        rcases publish_request hr₀ with rfl | ⟨e, rfl⟩
        · refine Or.inl (Or.inl ⟨s.sent.length, ?_, ?_, fun tid' => ?_⟩)
          · show (State.continueAt _ tid _).sent[s.sent.length]? = some m
            rw [continueAt_sent]
            simp
          · intro hack
            rcases apply_acked h with
              hsame | ⟨tid', -, -, mid, -, -, -, -, hheld, hins⟩
            · rw [hsame] at hack
              exact Nat.lt_irrefl _ (hb.acked hack)
            · rw [hins, Finset.mem_insert] at hack
              rcases hack with heq | hack
              · exact Nat.lt_irrefl _ (heq ▸ hb.held hheld)
              · exact Nat.lt_irrefl _ (hb.acked hack)
          · intro hm
            rcases message_origin h hm with hm | ha
            · exact Nat.lt_irrefl _ (hb.held hm)
            · cases ha
        · exact absurd hpc hg
      · rw [hpc] at hw
        cases hw
    · exact Or.inr ⟨tid, reply, r, rfl, hpc, hr, rfl⟩

end Waiting

-- ==================================================================== runs

/-- The run a message asks to execute. -/
def Message.run : Message → Option Uuid
  | .continueSession r => some r
  | .resumeRun r _ _ => some r
  | _ => none

/-- The run a worker executes. -/
def Worker.run : Worker → Option Uuid
  | .continueSession r => some r
  | .resumeRun r _ _ => some r
  | .invoke inv _ _ => some inv.runId
  | _ => none

/-- A worker task of the run is queued or executing. -/
def State.Busy (s : State) (rid : Uuid) : Prop :=
  (∃ mid m, s.sent[mid]? = some m ∧ mid ∉ s.acked ∧ m.run = some rid)
    ∨ (∃ tid m, (s.tasks tid).pc = .handler (.publish m)
      ∧ m.run = some rid)
    ∨ ∃ tid w, (s.tasks tid).pc = .worker w ∧ w.run = some rid

/-- The actor of a step. -/
def Action.actor : Action → Option Nat
  | .tick _ => none
  | .start tid _ | .deliver tid _ | .advance tid _ | .crash tid => some tid

/-- Every actor is done, and every message acknowledged. -/
structure State.Quiet (s : State) : Prop where
  idle : ∀ tid, (s.tasks tid).pc.isIdle = true
  acked : ∀ mid, mid < s.sent.length → mid ∈ s.acked

theorem State.Quiet.sent_acked {s : State} (h : s.Quiet) {mid : Nat}
    {m : Message} (hm : s.sent[mid]? = some m) : mid ∈ s.acked :=
  h.acked mid (List.getElem?_eq_some_iff.mp hm).1

theorem State.Quiet.not_publishing {s : State} (h : s.Quiet) {tid : Nat}
    {m : Message} : (s.tasks tid).pc ≠ .handler (.publish m) := by
  intro hpc
  have hidle := h.idle tid
  rw [hpc] at hidle
  cases hidle

theorem State.Quiet.worker_done {s : State} (h : s.Quiet) {tid : Nat}
    {w : Worker} (hpc : (s.tasks tid).pc = .worker w) : w = .done := by
  have hidle := h.idle tid
  rw [hpc] at hidle
  cases w with
  | done => rfl
  | _ => cases hidle

/-- Then no run is busy. -/
theorem State.Quiet.not_busy {s : State} (h : s.Quiet) (rid : Uuid) :
    ¬ s.Busy rid := by
  rintro (⟨mid, m, hsent, hack, -⟩ | ⟨tid, m, hpc, -⟩ | ⟨tid, w, hpc, hw⟩)
  · exact hack (h.sent_acked hsent)
  · exact h.not_publishing hpc
  · rw [h.worker_done hpc] at hw
    cases hw

/-- A step moves its own actor only. -/
theorem apply_other {env : Env} {s s' : State} {a : Action} {tid : Nat}
    (h : apply env a s = some s') (ht : a.actor ≠ some tid) :
    s'.tasks tid = s.tasks tid := by
  cases a with
  | tick d =>
      injection h with h
      subst h
      rfl
  | crash t =>
      injection h with h
      subst h
      exact Function.update_of_ne (fun e => ht (congrArg some e.symm)) _ _
  | advance t reply =>
      obtain ⟨r, -, rfl⟩ := Option.map_eq_some_iff.mp h
      exact perform_other fun e => ht (congrArg some e.symm)
  | start t entry =>
      unfold apply at h
      simp only at h
      split at h
      · injection h with h
        subst h
        exact Function.update_of_ne (fun e => ht (congrArg some e.symm)) _ _
      · cases h
  | deliver t mid =>
      unfold apply at h
      simp only at h
      split at h
      · obtain ⟨m, -, rfl⟩ := Option.map_eq_some_iff.mp h
        exact Function.update_of_ne (fun e => ht (congrArg some e.symm)) _ _
      · cases h

/-- A run of the first `n` actors leaves the others idle. -/
theorem run_idle {env : Env} {n : Nat} {acts : List Action} :
    ∀ {s s' : State}, Lts.run (apply env) s acts = some s' →
      (∀ a ∈ acts, ∀ t ∈ a.actor, t < n) →
      (∀ tid, n ≤ tid → (s.tasks tid).pc.isIdle = true) →
      ∀ tid, n ≤ tid → (s'.tasks tid).pc.isIdle = true := by
  induction acts with
  | nil =>
      intro s s' h _ hs tid ht
      injection h with h
      exact h ▸ hs tid ht
  | cons a rest ih =>
      intro s s' h hacts hs tid ht
      unfold Lts.run at h
      cases ha : apply env a s with
      | none =>
          rw [ha] at h
          cases h
      | some s₁ =>
          rw [ha] at h
          refine ih h (fun b hb => hacts b (List.mem_cons_of_mem a hb))
            (fun t hn => ?_) tid ht
          rw [apply_other ha]
          · exact hs t hn
          · intro hactor
            have hlt := hacts a List.mem_cons_self t hactor
            omega

/-- What to check for a run of the first `n` actors to end quiet. -/
theorem quiet_of_run {env : Env} {n : Nat} {acts : List Action} {s : State}
    (h : Lts.run (apply env) State.init acts = some s)
    (hacts : ∀ a ∈ acts, ∀ t ∈ a.actor, t < n)
    (hidle : (List.range n).all (fun tid => (s.tasks tid).pc.isIdle) = true)
    (hacked : (List.range s.sent.length).all (· ∈ s.acked) = true) :
    s.Quiet := by
  refine ⟨fun tid => ?_, fun mid hmid => ?_⟩
  · by_cases ht : tid < n
    · exact List.all_eq_true.mp hidle tid (List.mem_range.mpr ht)
    · exact run_idle h hacts (fun _ _ => rfl) tid (by omega)
  · simpa using List.all_eq_true.mp hacked mid (List.mem_range.mpr hmid)

/-- The call has recorded the outcome of its run, or opened its
interrupt. -/
def Stage.settled : Stage → Bool
  | .pauseJob | .finalize | .enqueueIndex | .failJob _ | .returned _
  | .escaped => true
  | _ => false

/-- How a call comes to be settled. -/
inductive Settles (db : Db) (run : Tx → Except TxError Db)
    (inv : Invocation) : Stage → Reply → Request Stage → Prop
  | lost (reply : Reply) (h : (∃ e, reply = .raised e)
      ∨ db.sessions.get inv.sessionId = none) :
      Settles db run inv .prepare reply (.goto .escaped)
  | unread (reply : Reply) (h : (∃ e, reply = .raised e)
      ∨ ∃ values, reply = .interrupts values
        ∧ persistInterrupt db inv.sessionId values = .pauseJob) :
      Settles db run inv .readInterrupts reply (.goto .pauseJob)
  | opened (reply : Reply) (id : Uuid) (kind : InterruptKind)
      (payload : Json) (schema : Option Json) (db' : Db)
      (committed : run (.openInterrupt id inv.sessionId (some inv.runId)
        kind payload schema) = .ok db') :
      Settles db run inv (.openInterrupt kind payload schema) reply
        (.commit (.openInterrupt id inv.sessionId (some inv.runId) kind
          payload schema) .pauseJob .failRun)
  | completed (reply : Reply) (db' : Db)
      (committed : run (.markRunStatus inv.runId .completed) = .ok db') :
      Settles db run inv .completeRun reply
        (.commit (.markRunStatus inv.runId .completed) .finalize .failRun)
  | failed (reply : Reply) (e : String) :
      Settles db run inv (.failRun e) reply
        (.commit (.markRunStatus inv.runId .failed) (.failJob e)
          fun _ => .escaped)

theorem Stage.request_settles {cfg : Settings} {db : Db} {reply : Reply}
    {run : Tx → Except TxError Db} {inv : Invocation} {stage : Stage}
    {r : Request Stage} (hr : stage.request cfg db inv reply = some r)
    (hs : stage.settled = false) :
    (r.landing run).settled = false
      ∨ Settles db run inv stage reply r := by
  cases stage with
  | prepare =>
      simp only [Stage.request] at hr
      split at hr
      · split at hr
        · injection hr with hr
          subst hr
          exact Or.inl rfl
        · rename_i hnone
          injection hr with hr
          subst hr
          exact Or.inr (.lost _ (Or.inr hnone))
      · injection hr with hr
        subst hr
        exact Or.inr (.lost _ (Or.inl ⟨_, rfl⟩))
      · cases hr
  | readInterrupts =>
      simp only [Stage.request] at hr
      split at hr
      · rename_i values
        injection hr with hr
        subst hr
        by_cases hp : persistInterrupt db inv.sessionId values = .pauseJob
        · rw [hp]
          exact Or.inr (.unread _ (Or.inr ⟨values, rfl, hp⟩))
        · refine Or.inl ?_
          unfold Request.landing
          unfold persistInterrupt at hp ⊢
          grind [Stage.settled]
      · injection hr with hr
        subst hr
        exact Or.inr (.unread _ (Or.inl ⟨_, rfl⟩))
      · cases hr
  | openInterrupt kind payload schema =>
      simp only [Stage.request] at hr
      split at hr
      · injection hr with hr
        subst hr
        unfold Request.landing
        simp only
        split
        · rename_i db' hc
          exact Or.inr (.opened _ _ _ _ _ db' hc)
        · exact Or.inl rfl
      · cases hr
  | completeRun =>
      simp only [Stage.request] at hr
      split at hr
      · injection hr with hr
        subst hr
        unfold Request.landing
        simp only
        split
        · rename_i db' hc
          exact Or.inr (.completed _ db' hc)
        · exact Or.inl rfl
      · cases hr
  | failRun e =>
      simp only [Stage.request] at hr
      split at hr
      · injection hr with hr
        subst hr
        exact Or.inr (.failed _ e)
      · cases hr
  | _ =>
      refine Or.inl ?_
      unfold Stage.request at hr
      grind [Stage.settled, Request.landing]

/-- A call comes to the job's transition without a new request, or after
it has opened one. -/
theorem Stage.lands_pauseJob {cfg : Settings} {db : Db} {reply : Reply}
    {run : Tx → Except TxError Db} {inv : Invocation} {stage : Stage}
    {r : Request Stage} (hr : stage.request cfg db inv reply = some r)
    (hl : r.landing run = .pauseJob) :
    (stage = .readInterrupts ∧ r = .goto .pauseJob
        ∧ ((∃ e, reply = .raised e) ∨ ∃ values,
          reply = .interrupts values
            ∧ persistInterrupt db inv.sessionId values = .pauseJob))
      ∨ ∃ id kind payload schema db',
        r = .commit (.openInterrupt id inv.sessionId (some inv.runId) kind
          payload schema) .pauseJob .failRun
          ∧ run (.openInterrupt id inv.sessionId (some inv.runId) kind
            payload schema) = .ok db' := by
  by_cases hs : stage.settled = true
  · -- nothing comes back from a settled stage
    cases stage with
    | pauseJob =>
        simp only [Stage.request] at hr
        split at hr
        · injection hr with hr
          subst hr
          unfold Request.landing at hl
          grind
        · cases hr
    | finalize =>
        simp only [Stage.request] at hr
        split at hr
        · injection hr with hr
          subst hr
          unfold Request.landing at hl
          grind
        · cases hr
    | enqueueIndex =>
        unfold Stage.request at hr
        grind [Request.landing]
    | failJob e =>
        simp only [Stage.request] at hr
        split at hr
        · injection hr with hr
          subst hr
          unfold Request.landing at hl
          grind
        · cases hr
    | returned ok => cases hr
    | escaped => cases hr
    | _ => cases hs
  · have hsettles : (r.landing run).settled = false
        ∨ Settles db run inv stage reply r :=
      Stage.request_settles hr (by simpa using hs)
    rcases hsettles with hgo | hend
    · rw [hl] at hgo
      cases hgo
    cases hend with
    | lost => cases hl
    | unread _ h => exact Or.inl ⟨rfl, rfl, h⟩
    | opened _ id kind payload schema db' hc =>
        exact Or.inr ⟨id, kind, payload, schema, db', rfl, hc⟩
    | completed _ db' hc =>
        unfold Request.landing at hl
        simp only [hc] at hl
        cases hl
    | failed _ e =>
        unfold Request.landing at hl
        simp only at hl
        split at hl
        · cases hl
        · cases hl

end LegalBot
