/-
Where messages come from, and what an actor that answers an interrupt
has read.

# Messages

A message is known when it was sent, or when an actor is about to
publish it or to execute it. `knows_origin` is the one case split over
the steps that make a message known: a committed request is about to
publish it, or it is a dispatched job or an index request. An invariant
of messages follows from what `Handler.request_publish` says of the
first case.

# Answers

`resolve` checks the pending row it read and updates it by id in a later
statement. The columns its answer depends on are those of the row that
is there by then (`AnswersRow`): no statement rewrites them.
-/
import LegalBot.Orchestrator.Points

namespace LegalBot

open Relational (HasKey Table)

-- ================================================================ messages

/-- The message an actor is about to publish or to execute. -/
def Pc.carries : Pc → Option Message
  | .handler (.publish m) => some m
  | .worker (.runPipeline j) => some (.runPipeline j)
  | .worker (.continueSession r) => some (.continueSession r)
  | .worker (.resumeRun r payload i) => some (.resumeRun r payload i)
  | .worker (.graphIndexRun r) => some (.graphIndexRun r)
  | _ => none

/-- The message was sent, or is about to be. -/
def State.Knows (s : State) (m : Message) : Prop :=
  m ∈ s.sent ∨ ∃ tid, (s.tasks tid).pc.carries = some m

section Messages

variable {env : Env} {s s' : State} {a : Action} {tid : Nat} {m : Message}

theorem carries_cases {pc : Pc} (h : pc.carries = some m) :
    pc = .handler (.publish m) ∨ pc = .worker m.entry := by
  unfold Pc.carries at h
  split at h
  · injection h with h
    exact Or.inl (by rw [h])
  case h_6 => cases h
  all_goals
    injection h with h
    subst h
    exact Or.inr rfl

@[simp] theorem carries_entry :
    (Pc.worker m.entry).carries = some m := by
  cases m <;> rfl

/-- No worker point lands at the entry of a task. -/
theorem Worker.landing_ne_entry {db : Db} {reply : Reply} {w : Worker}
    {r : Request Worker} {run : Tx → Except TxError Db} (m : Message)
    (h : w.request env db reply = some r) :
    r.landing run ≠ m.entry := by
  intro hl
  cases w with
  | invoke inv slot stage =>
      rcases Worker.request_invoke_inv h with ⟨-, rfl⟩ | ⟨-, r₀, -, rfl⟩
      · cases slot with
        | none => cases m <;> cases hl
        | some j => cases m <;> cases hl
      · rw [Request.landing_map] at hl
        cases m <;> cases hl
  | _ =>
      unfold Worker.request at h
      cases m <;> grind [Request.landing, Message.entry]

/-- An actor comes to carry a message by a delivery, or by the request
that is about to publish it. -/
theorem carrying_origin (h : apply env a s = some s')
    (hc : (s'.tasks tid).pc.carries = some m) :
    (s.tasks tid).pc.carries = some m
      ∨ (∃ mid, a = .deliver tid mid ∧ s.sent[mid]? = some m)
      ∨ ∃ reply hd r, a = .advance tid reply
        ∧ (s.tasks tid).pc = .handler hd
        ∧ hd.request env s.now s.db s.inFlight reply = some r
        ∧ r.landing (Tx.commit env.cfg s.now s.db) = .publish m
        ∧ s' = s.perform env tid (r.map .handler) := by
  rcases apply_task h tid with
    heq | hidle | ⟨entry, hentry, heq⟩ | ⟨mid, m', rfl, hm, heq⟩
      | ⟨reply, r, ha, hr, rfl⟩
  · rw [heq] at hc
    exact Or.inl hc
  · rw [hidle] at hc
    cases hc
  · rw [heq] at hc
    rcases carries_cases hc with he | he
    · injection he with he
      subst he
      cases hentry
    · cases he
  · rw [heq, carries_entry] at hc
    injection hc with hc
    exact Or.inr (Or.inl ⟨mid, rfl, hc ▸ hm⟩)
  · rw [perform_pc] at hc
    rcases request_cases hr with
      ⟨hd, r₀, hpc, hr₀, rfl⟩ | ⟨w, r₀, hpc, hr₀, rfl⟩
    · rw [Request.landing_map] at hc
      rcases carries_cases hc with he | he
      · injection he with he
        exact Or.inr (Or.inr ⟨reply, hd, r₀, ha, hpc, hr₀, he, rfl⟩)
      · cases he
    · rw [Request.landing_map] at hc
      rcases carries_cases hc with he | he
      · cases he
      · injection he with he
        exact absurd he (Worker.landing_ne_entry m hr₀)

/-- How a message becomes known. -/
theorem knows_origin (h : apply env a s = some s') (hk : s'.Knows m) :
    s.Knows m
      ∨ (∃ tid reply hd r, a = .advance tid reply
        ∧ (s.tasks tid).pc = .handler hd
        ∧ hd.request env s.now s.db s.inFlight reply = some r
        ∧ r.landing (Tx.commit env.cfg s.now s.db) = .publish m
        ∧ s' = s.perform env tid (r.map .handler))
      ∨ (∃ j, m = .runPipeline j) ∨ ∃ rid, m = .graphIndexRun rid := by
  rcases hk with hsent | ⟨tid, hc⟩
  · rcases apply_sent h with heq | ⟨tid, reply, m', next, -, hreq, -, heq⟩
    · rw [heq] at hsent
      exact Or.inl (Or.inl hsent)
    · rw [heq, List.mem_append, List.mem_singleton] at hsent
      rcases hsent with hsent | rfl
      · exact Or.inl (Or.inl hsent)
      · rcases request_cases hreq with
          ⟨hd, r₀, hpc, hr₀, hm⟩ | ⟨w, r₀, hpc, hr₀, hm⟩
        · cases r₀ with
          | send m₀ next₀ =>
              cases hm
              rcases Handler.request_send hr₀ with ⟨rfl, -⟩ | ⟨j, hj⟩
              · refine Or.inl (Or.inr ⟨tid, ?_⟩)
                rw [hpc]
                rfl
              · exact Or.inr (Or.inr (Or.inl ⟨j, hj⟩))
          | _ => cases hm
        · cases r₀ with
          | send m₀ next₀ =>
              cases hm
              exact Or.inr (Or.inr (Or.inr (Worker.request_send hr₀)))
          | _ => cases hm
  · rcases carrying_origin h hc with
      hc | ⟨mid, -, hm⟩ | ⟨reply, hd, r, ha, hpc, hr, hl, hs⟩
    · exact Or.inl (Or.inr ⟨tid, hc⟩)
    · exact Or.inl (Or.inl (List.mem_of_getElem? hm))
    · exact Or.inr (Or.inl ⟨tid, reply, hd, r, ha, hpc, hr, hl, hs⟩)

end Messages

-- ================================================================= answers

/-- The columns of an interrupt its answer depends on. -/
structure SameQuestion (r r' : InterruptRequest) : Prop where
  id : r'.id = r.id
  sessionId : r'.sessionId = r.sessionId
  runId : r'.runId = r.runId
  kind : r'.kind = r.kind
  payload : r'.payload = r.payload

theorem SameQuestion.refl (r : InterruptRequest) : SameQuestion r r :=
  ⟨rfl, rfl, rfl, rfl, rfl⟩

theorem InterruptMove.sameQuestion {log : List Event}
    {r r' : InterruptRequest} (h : InterruptMove log r r') :
    SameQuestion r r' :=
  ⟨h.id, h.sessionId, h.runId, h.kind, h.payload⟩

theorem SameQuestion.trans {a b c : InterruptRequest}
    (h₁ : SameQuestion a b) (h₂ : SameQuestion b c) : SameQuestion a c :=
  ⟨h₂.id.trans h₁.id, h₂.sessionId.trans h₁.sessionId,
    h₂.runId.trans h₁.runId, h₂.kind.trans h₁.kind,
    h₂.payload.trans h₁.payload⟩

/-- What an actor that is about to update an interrupt has established:
its checks passed on a row of the session, which is still there. -/
structure AnswersRow (env : Env) (db : Db) (sid : Uuid)
    (current : InterruptRequest) (resolution : InterruptResolution)
    (value : Json) : Prop where
  checked : checkResolution env.valid (some current) resolution
    = .ok (current, value)
  session : current.sessionId = sid
  stored : ∃ row, db.interrupts.get current.id = some row
    ∧ SameQuestion current row

section Answers

variable {env : Env} {s s' : State} {a : Action}

/-- An interrupt stays, and with it what is asked. -/
theorem apply_interrupt (h : apply env a s = some s') {i : Uuid}
    {r : InterruptRequest} (hr : s.db.interrupts.get i = some r) :
    ∃ r', s'.db.interrupts.get i = some r' ∧ SameQuestion r r' := by
  rcases apply_committed h with hdb | ⟨tx, -, hc⟩
  · rw [hdb]
    exact ⟨r, hr, SameQuestion.refl r⟩
  · obtain ⟨r', hr', hmove⟩ := hc.interrupts.persists hr
    exact ⟨r', hr', hmove.sameQuestion⟩

/-- Only the checks of `resolve` lead to its update. -/
theorem Handler.request_resolveUpdate {now : Time} {db : Db}
    {inFlight : Finset Uuid} {reply : Reply} {hd : Handler}
    {r : Request Handler} {run : Tx → Except TxError Db} {sid : Uuid}
    {current : InterruptRequest} {resolution : InterruptResolution}
    {value : Json} {resolvedBy : Option String}
    (hr : hd.request env now db inFlight reply = some r)
    (hl : r.landing run
      = .resolveUpdate sid current resolution value resolvedBy) :
    hd = .resolve sid resolution resolvedBy
      ∧ checkResolution env.valid (currentForSession db.interrupts sid)
        resolution = .ok (current, value)
      ∧ r = .goto (.resolveUpdate sid current resolution value
        resolvedBy) := by
  cases hd with
  | resolve sid₀ resolution₀ resolvedBy₀ =>
      simp only [Handler.request] at hr
      split at hr
      · rename_i current₀ value₀ hcheck
        injection hr with hr
        subst hr
        simp only [Request.landing] at hl
        injection hl with h₁ h₂ h₃ h₄ h₅
        subst h₁
        subst h₂
        subst h₃
        subst h₄
        subst h₅
        exact ⟨rfl, hcheck, rfl⟩
      · injection hr with hr
        subst hr
        cases hl
  | resolveUpdate sid₀ current₀ resolution₀ value₀ resolvedBy₀ =>
      simp only [Handler.request] at hr
      split at hr
      · injection hr with hr
        subst hr
        unfold Request.landing afterResolve at hl
        grind
      · injection hr with hr
        subst hr
        cases hl
      · cases hr
  | _ =>
      unfold Handler.request at hr
      grind [Request.landing]

/-- In every state reached, an actor that is about to update an
interrupt answers a row of the session. -/
theorem resolveUpdate_answers {G : Action → State → Prop}
    (h : Reaches env G s) :
    ∀ {tid sid current resolution value resolvedBy},
      (s.tasks tid).pc = .handler
        (.resolveUpdate sid current resolution value resolvedBy) →
      AnswersRow env s.db sid current resolution value := by
  refine Lts.Reachable.invariant (P := fun s =>
    ∀ {tid sid current resolution value resolvedBy},
      (s.tasks tid).pc = .handler
        (.resolveUpdate sid current resolution value resolvedBy) →
      AnswersRow env s.db sid current resolution value) ?_ ?_ h
  · intro tid sid current resolution value resolvedBy hpc
    cases hpc
  intro s a s' _ ih _ hstep tid sid current resolution value resolvedBy hpc
  rcases apply_task hstep tid with
    heq | hidle | ⟨entry, hentry, heq⟩ | ⟨mid, m, -, -, heq⟩
      | ⟨reply, r, ha, hr, rfl⟩
  · rw [heq] at hpc
    have hbefore := ih hpc
    obtain ⟨row, hrow, hsame⟩ := hbefore.stored
    obtain ⟨row', hrow', hsame'⟩ := apply_interrupt hstep hrow
    exact ⟨hbefore.checked, hbefore.session, row', hrow',
      hsame.trans hsame'⟩
  · rw [hidle] at hpc
    cases hpc
  · rw [heq] at hpc
    injection hpc with hpc
    subst hpc
    cases hentry
  · rw [heq] at hpc
    cases hpc
  · rw [perform_pc] at hpc
    rcases request_cases hr with
      ⟨hd, r₀, hd', hr₀, rfl⟩ | ⟨w, r₀, -, -, rfl⟩
    · rw [Request.landing_map] at hpc
      injection hpc with hpc
      obtain ⟨rfl, hcheck, rfl⟩ := Handler.request_resolveUpdate hr₀ hpc
      obtain ⟨hcur, -⟩ := checkResolution_ok hcheck
      obtain ⟨hget, hsid, -⟩ := currentForSession_some hcur
      rw [hcur] at hcheck
      refine ⟨hcheck, hsid, current, ?_, SameQuestion.refl current⟩
      exact hget
    · rw [Request.landing_map] at hpc
      cases hpc

/-- A message that answers an interrupt is published by the actor that
resolved it. -/
theorem Handler.request_answer {now : Time} {db : Db}
    {inFlight : Finset Uuid} {reply : Reply} {hd : Handler}
    {r : Request Handler} {run : Tx → Except TxError Db} {rid i : Uuid}
    {value : Json} (hr : hd.request env now db inFlight reply = some r)
    (hl : r.landing run = .publish (.resumeRun rid value (some i))) :
    ∃ sid current resolution resolvedBy iid,
      hd = .resolveUpdate sid current resolution value resolvedBy
        ∧ current.id = i ∧ current.runId = some rid
        ∧ r = .commit (.resolve sid current resolution resolvedBy iid)
          (afterResolve current value) (fun _ => .done) := by
  cases hd with
  | resolveUpdate sid current resolution value₀ resolvedBy =>
      simp only [Handler.request] at hr
      split at hr
      · rename_i iid _ _
        injection hr with hr
        subst hr
        unfold Request.landing at hl
        simp only at hl
        split at hl
        · unfold afterResolve at hl
          split at hl
          · rename_i rid₀ hrid
            injection hl with hl
            injection hl with h₁ h₂ h₃
            injection h₃ with h₃
            subst h₁
            subst h₂
            exact ⟨sid, current, resolution, resolvedBy, iid, rfl, h₃,
              hrid, rfl⟩
          · cases hl
        · cases hl
      · injection hr with hr
        subst hr
        cases hl
      · cases hr
  | _ =>
      unfold Handler.request at hr
      grind [Request.landing]

end Answers

-- ============================================================== follow-ups

section FollowUpChecks

variable {env : Env} {now : Time} {db : Db} {inFlight : Finset Uuid}
  {reply : Reply} {hd : Handler} {r : Request Handler}
  {run : Tx → Except TxError Db} {sid : Uuid} {content : String}

/-- A request passes `ensure_accepting_messages`. -/
theorem Handler.request_postMessageIndex
    (hr : hd.request env now db inFlight reply = some r)
    (hl : r.landing run = .postMessageIndex sid content) :
    hd = .postMessage sid content
      ∧ ∃ session, db.sessions.get sid = some session
        ∧ ensureAcceptingMessages session = .ok session := by
  cases hd with
  | postMessage sid₀ content₀ =>
      simp only [Handler.request] at hr
      split at hr
      · injection hr with hr
        subst hr
        cases hl
      · rename_i session hsession
        split at hr
        · rename_i session' hok
          injection hr with hr
          subst hr
          injection hl with h₁ h₂
          subst h₁
          subst h₂
          have hsame : session' = session := by
            unfold ensureAcceptingMessages at hok
            split at hok
            · cases hok
            · split at hok
              · cases hok
              · injection hok with hok
                exact hok.symm
          exact ⟨rfl, session, hsession, hsame ▸ hok⟩
        · injection hr with hr
          subst hr
          cases hl
  | _ =>
      unfold Handler.request at hr
      grind [Request.landing, afterResolve]

/-- It then reads the next message index. -/
theorem Handler.request_postMessageInsert {index : Int}
    (hr : hd.request env now db inFlight reply = some r)
    (hl : r.landing run = .postMessageInsert sid content index) :
    hd = .postMessageIndex sid content
      ∧ index = nextMessageIndex db.messages sid := by
  cases hd with
  | postMessageIndex sid₀ content₀ =>
      injection hr with hr
      subst hr
      injection hl with h₁ h₂ h₃
      subst h₁
      subst h₂
      exact ⟨rfl, h₃.symm⟩
  | _ =>
      unfold Handler.request at hr
      grind [Request.landing, afterResolve]

end FollowUpChecks

end LegalBot
