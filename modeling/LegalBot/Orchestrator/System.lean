/-
The whole orchestration as one transition system: a database, a Redis
set of in-flight jobs, an at-least-once broker, and any number of tasks
(API requests, cron passes, worker tasks) that interleave at the program
points of `Orchestrator/Tasks.lean`.

# The broker

`sent` is append-only; a delivery starts a task at the message's entry
point. `task_acks_late` acknowledges when the task ends, so a message is
delivered any number of times until then: to several workers at once
(the visibility timeout of a long task), or again after a crash.

# Granularity

A transaction commits in one step. Its guarded `UPDATE`s take the row
locks they need and keep them until then, so no other commit comes
between the guard and the write; reads that hold no lock are steps of
their own.
-/
import LegalBot.Orchestrator.Tasks
import LegalBot.Orchestrator.Commits
import LegalBot.Lib.System
import Mathlib.Logic.Function.Basic

namespace LegalBot

open Relational (HasKey Table)

-- =================================================================== states

/-- An actor: its program point and the message it will acknowledge. -/
structure Task where
  pc : Pc
  message : Option Nat

/-- The state of the system; `log` is ghost, newest event first. -/
structure State where
  db : Db
  now : Time
  inFlight : Finset Uuid
  sent : List Message
  acked : Finset Nat
  tasks : Nat → Task
  log : List Event

/-- The empty deployment. -/
def State.init : State :=
  { db := .empty, now := 0, inFlight := ∅, sent := [], acked := ∅
    tasks := fun _ => ⟨.idle, none⟩, log := [] }

/-- What may happen next. -/
inductive Action where
  | tick (seconds : Nat)
  | start (tid : Nat) (entry : Handler)
  | deliver (tid mid : Nat)
  | advance (tid : Nat) (reply : Reply)
  | crash (tid : Nat)

-- ==================================================================== steps

/-- Move an actor on; one that is done acknowledges its message. -/
def State.continueAt (s : State) (tid : Nat) (pc : Pc) : State :=
  if pc.isIdle then
    { s with
      tasks := Function.update s.tasks tid ⟨pc, none⟩
      acked := match (s.tasks tid).message with
        | some mid => insert mid s.acked
        | none => s.acked }
  else
    { s with
      tasks := Function.update s.tasks tid ⟨pc, (s.tasks tid).message⟩ }

/-- Carry out what an actor asks for. -/
def State.perform (env : Env) (s : State) (tid : Nat) :
    Request Pc → State
  | .goto next => s.continueAt tid next
  | .commit tx ok raised =>
      match tx.commit env.cfg s.now s.db with
      | .ok db =>
          { s with
            db := db
            log := tx.events s.now s.db ++ s.log }.continueAt tid ok
      | .error e => s.continueAt tid (raised e.message)
  | .send m next => { s with sent := s.sent ++ [m] }.continueAt tid next
  | .note e next => { s with log := e :: s.log }.continueAt tid next
  | .acquire j next =>
      { s with inFlight := insert j s.inFlight }.continueAt tid next
  | .release j next =>
      { s with inFlight := s.inFlight.erase j }.continueAt tid next

/-- What an actor asks for, given the environment's answer. -/
def State.request (env : Env) (s : State) (tid : Nat) (reply : Reply) :
    Option (Request Pc) :=
  (s.tasks tid).pc.request env s.now s.db s.inFlight reply

/-- Take one step, or `none` when it is not enabled. -/
def apply (env : Env) (a : Action) (s : State) : Option State :=
  match a with
  | .tick d => some { s with now := s.now + d }
  | .start tid entry =>
      if (s.tasks tid).pc.isIdle ∧ entry.isEntry then
        some { s with
          tasks := Function.update s.tasks tid ⟨.handler entry, none⟩ }
      else none
  | .deliver tid mid =>
      if (s.tasks tid).pc.isIdle ∧ mid ∉ s.acked then
        (s.sent[mid]?).map fun m =>
          { s with
            tasks := Function.update s.tasks tid
              ⟨.worker m.entry, some mid⟩ }
      else none
  | .advance tid reply => (s.request env tid reply).map (s.perform env tid)
  | .crash tid =>
      some { s with tasks := Function.update s.tasks tid ⟨.idle, none⟩ }

/-- The transaction a step is about to run. -/
def committing (env : Env) (a : Action) (s : State) : Option Tx :=
  match a with
  | .advance tid reply =>
      match s.request env tid reply with
      | some (.commit tx _ _) => some tx
      | _ => none
  | _ => none

/-- The states the system reaches by steps that meet `G`. -/
abbrev Reaches (env : Env) (G : Action → State → Prop) : State → Prop :=
  Lts.Reachable (apply env) G State.init

-- ================================================================ inversion

/-- Where an actor is after its request, given what transactions do. -/
def Request.landing {P : Type} (run : Tx → Except TxError Db) :
    Request P → P
  | .goto next => next
  | .commit tx ok raised =>
      match run tx with
      | .ok _ => ok
      | .error e => raised e.message
  | .send _ next => next
  | .note _ next => next
  | .acquire _ next => next
  | .release _ next => next

theorem Request.landing_map {P Q : Type} {run : Tx → Except TxError Db}
    (f : P → Q) (r : Request P) :
    (r.map f).landing run = f (r.landing run) := by
  cases r with
  | commit tx ok raised =>
      unfold Request.map Request.landing
      simp only
      cases run tx with
      | ok db => rfl
      | error e => rfl
  | _ => rfl

section Inversion

variable {env : Env} {s s' : State} {a : Action} {tid : Nat}

@[simp] theorem continueAt_db (pc : Pc) :
    (s.continueAt tid pc).db = s.db := by
  unfold State.continueAt
  split <;> rfl

@[simp] theorem continueAt_log (pc : Pc) :
    (s.continueAt tid pc).log = s.log := by
  unfold State.continueAt
  split <;> rfl

@[simp] theorem continueAt_sent (pc : Pc) :
    (s.continueAt tid pc).sent = s.sent := by
  unfold State.continueAt
  split <;> rfl

@[simp] theorem continueAt_inFlight (pc : Pc) :
    (s.continueAt tid pc).inFlight = s.inFlight := by
  unfold State.continueAt
  split <;> rfl

@[simp] theorem continueAt_now (pc : Pc) :
    (s.continueAt tid pc).now = s.now := by
  unfold State.continueAt
  split <;> rfl

/-- The actor that moved is where it was sent. -/
theorem continueAt_pc (pc : Pc) :
    ((s.continueAt tid pc).tasks tid).pc = pc := by
  unfold State.continueAt
  split
  · simp
  · simp

/-- An actor that is not done keeps its message. -/
theorem continueAt_message {pc : Pc} (h : pc.isIdle = false) :
    ((s.continueAt tid pc).tasks tid).message = (s.tasks tid).message := by
  unfold State.continueAt
  simp [h]

/-- No other message comes to it. -/
theorem continueAt_held (pc : Pc) :
    ((s.continueAt tid pc).tasks tid).message = none
      ∨ ((s.continueAt tid pc).tasks tid).message
        = (s.tasks tid).message := by
  unfold State.continueAt
  by_cases hidle : pc.isIdle = true
  · simp [hidle]
  · simp [hidle]

/-- Every other actor stays where it was. -/
theorem continueAt_other {pc : Pc} {tid' : Nat} (h : tid' ≠ tid) :
    (s.continueAt tid pc).tasks tid' = s.tasks tid' := by
  unfold State.continueAt
  split
  · exact Function.update_of_ne h _ _
  · exact Function.update_of_ne h _ _

/-- Where a request leaves the actor that made it. -/
theorem perform_pc (r : Request Pc) :
    ((s.perform env tid r).tasks tid).pc
      = r.landing (Tx.commit env.cfg s.now s.db) := by
  cases r with
  | commit tx ok raised =>
      unfold State.perform Request.landing
      simp only
      cases tx.commit env.cfg s.now s.db with
      | ok db => exact continueAt_pc _
      | error e => exact continueAt_pc _
  | _ => exact continueAt_pc _

/-- An actor that is not done by its request keeps its message. -/
theorem perform_message {r : Request Pc}
    (h : (r.landing (Tx.commit env.cfg s.now s.db)).isIdle = false) :
    ((s.perform env tid r).tasks tid).message
      = (s.tasks tid).message := by
  cases r with
  | commit tx ok raised =>
      unfold Request.landing at h
      unfold State.perform
      simp only at h ⊢
      cases hc : tx.commit env.cfg s.now s.db with
      | ok db =>
          rw [hc] at h
          exact continueAt_message h
      | error e =>
          rw [hc] at h
          exact continueAt_message h
  | _ => exact continueAt_message h

theorem perform_held (r : Request Pc) :
    ((s.perform env tid r).tasks tid).message = none
      ∨ ((s.perform env tid r).tasks tid).message
        = (s.tasks tid).message := by
  cases r with
  | commit tx ok raised =>
      unfold State.perform
      simp only
      cases hc : tx.commit env.cfg s.now s.db with
      | ok db => exact continueAt_held ok
      | error e => exact continueAt_held (raised e.message)
  | _ => exact continueAt_held _

/-- It leaves every other actor alone. -/
theorem perform_other {r : Request Pc} {tid' : Nat} (h : tid' ≠ tid) :
    (s.perform env tid r).tasks tid' = s.tasks tid' := by
  cases r with
  | commit tx ok raised =>
      unfold State.perform
      simp only
      cases tx.commit env.cfg s.now s.db with
      | ok db => exact continueAt_other h
      | error e => exact continueAt_other h
  | _ => exact continueAt_other h

/-- How an actor gets to where it is after a step: it did not move, it
was reset, it entered, or it made a request. -/
theorem apply_task (h : apply env a s = some s') (tid : Nat) :
    s'.tasks tid = s.tasks tid
      ∨ s'.tasks tid = ⟨.idle, none⟩
      ∨ (∃ entry, entry.isEntry = true
          ∧ s'.tasks tid = ⟨.handler entry, none⟩)
      ∨ (∃ mid m, a = .deliver tid mid ∧ s.sent[mid]? = some m
          ∧ s'.tasks tid = ⟨.worker m.entry, some mid⟩)
      ∨ (∃ reply r, a = .advance tid reply
          ∧ s.request env tid reply = some r
          ∧ s' = s.perform env tid r) := by
  cases a with
  | tick d =>
      injection h with h
      subst h
      exact Or.inl rfl
  | start t entry =>
      unfold apply at h
      simp only at h
      split at h
      · rename_i hg
        injection h with h
        subst h
        by_cases ht : tid = t
        · subst ht
          refine Or.inr (Or.inr (Or.inl ⟨entry, hg.2, ?_⟩))
          exact Function.update_self _ _ _
        · exact Or.inl (Function.update_of_ne ht _ _)
      · cases h
  | deliver t mid =>
      unfold apply at h
      simp only at h
      split at h
      · obtain ⟨m, hm, rfl⟩ := Option.map_eq_some_iff.mp h
        by_cases ht : tid = t
        · subst ht
          refine Or.inr (Or.inr (Or.inr (Or.inl ⟨mid, m, rfl, hm, ?_⟩)))
          exact Function.update_self _ _ _
        · exact Or.inl (Function.update_of_ne ht _ _)
      · cases h
  | crash t =>
      injection h with h
      subst h
      by_cases ht : tid = t
      · subst ht
        refine Or.inr (Or.inl ?_)
        exact Function.update_self _ _ _
      · exact Or.inl (Function.update_of_ne ht _ _)
  | advance t reply =>
      obtain ⟨r, hr, rfl⟩ := Option.map_eq_some_iff.mp h
      by_cases ht : tid = t
      · subst ht
        exact Or.inr (Or.inr (Or.inr (Or.inr ⟨reply, r, rfl, hr, rfl⟩)))
      · exact Or.inl (perform_other ht)

/-- A committed transaction is the new database, and is logged. -/
theorem perform_commit {tx : Tx} {ok : Pc} {raised : String → Pc} {db : Db}
    (h : tx.commit env.cfg s.now s.db = .ok db) :
    (s.perform env tid (.commit tx ok raised)).db = db
      ∧ (s.perform env tid (.commit tx ok raised)).log
        = tx.events s.now s.db ++ s.log := by
  unfold State.perform
  simp only [h]
  exact ⟨continueAt_db ok, continueAt_log ok⟩

/-- The same for a request embedded into the actor's points. -/
theorem perform_commit_map {P : Type} {f : P → Pc} {tx : Tx} {ok : P}
    {raised : String → P} {db : Db}
    (h : tx.commit env.cfg s.now s.db = .ok db) :
    (s.perform env tid ((Request.commit tx ok raised).map f)).db = db
      ∧ (s.perform env tid ((Request.commit tx ok raised).map f)).log
        = tx.events s.now s.db ++ s.log :=
  perform_commit h

/-- What a step does to the database: nothing, with the log growing by
a noted event at most, or one committed transaction, which is logged. -/
theorem apply_db (h : apply env a s = some s') :
    (s'.db = s.db ∧ committing env a s = none
        ∧ (s'.log = s.log ∨ ∃ tid reply e next,
            s.request env tid reply = some (.note e next)
            ∧ s' = s.perform env tid (.note e next)
            ∧ s'.log = e :: s.log))
      ∨ ∃ tx, committing env a s = some tx
        ∧ ((s'.db = s.db ∧ s'.log = s.log)
          ∨ (tx.commit env.cfg s.now s.db = .ok s'.db
            ∧ s'.log = tx.events s.now s.db ++ s.log)) := by
  cases a with
  | tick d =>
      injection h with h
      subst h
      exact Or.inl ⟨rfl, rfl, Or.inl rfl⟩
  | start tid entry =>
      unfold apply at h
      simp only at h
      split at h
      · injection h with h
        subst h
        exact Or.inl ⟨rfl, rfl, Or.inl rfl⟩
      · cases h
  | deliver tid mid =>
      unfold apply at h
      simp only at h
      split at h
      · obtain ⟨m, -, rfl⟩ := Option.map_eq_some_iff.mp h
        exact Or.inl ⟨rfl, rfl, Or.inl rfl⟩
      · cases h
  | crash tid =>
      injection h with h
      subst h
      exact Or.inl ⟨rfl, rfl, Or.inl rfl⟩
  | advance tid reply =>
      obtain ⟨r, hr, rfl⟩ := Option.map_eq_some_iff.mp h
      unfold committing
      simp only [hr]
      cases r with
      | goto next =>
          exact Or.inl ⟨continueAt_db _, rfl, Or.inl (continueAt_log _)⟩
      | commit tx ok raised =>
          refine Or.inr ⟨tx, rfl, ?_⟩
          cases hc : tx.commit env.cfg s.now s.db with
          | ok db =>
              have hcommit : (s.perform env tid
                  (.commit tx ok raised)).db = db
                  ∧ (s.perform env tid (.commit tx ok raised)).log
                    = tx.events s.now s.db ++ s.log := perform_commit hc
              exact Or.inr ⟨by rw [hcommit.1], hcommit.2⟩
          | error e =>
              unfold State.perform
              simp only [hc]
              exact Or.inl ⟨continueAt_db _, continueAt_log _⟩
      | send m next =>
          exact Or.inl ⟨continueAt_db _, rfl, Or.inl (continueAt_log _)⟩
      | note e next =>
          exact Or.inl ⟨continueAt_db _, rfl,
            Or.inr ⟨tid, reply, e, next, hr, rfl, continueAt_log _⟩⟩
      | acquire j next =>
          exact Or.inl ⟨continueAt_db _, rfl, Or.inl (continueAt_log _)⟩
      | release j next =>
          exact Or.inl ⟨continueAt_db _, rfl, Or.inl (continueAt_log _)⟩

/-- A transaction that can commit does. -/
theorem apply_commits (h : apply env a s = some s') {tx : Tx} {db : Db}
    (htx : committing env a s = some tx)
    (hc : tx.commit env.cfg s.now s.db = .ok db) :
    s'.db = db ∧ s'.log = tx.events s.now s.db ++ s.log := by
  cases a with
  | advance tid reply =>
      obtain ⟨r, hr, rfl⟩ := Option.map_eq_some_iff.mp h
      unfold committing at htx
      simp only [hr] at htx
      cases r with
      | commit tx' ok raised =>
          injection htx with htx
          subst htx
          exact perform_commit hc
      | _ => cases htx
  | _ => cases htx

/-- What a step does to the broker: nothing, or one message is sent. -/
theorem apply_sent (h : apply env a s = some s') :
    s'.sent = s.sent ∨ ∃ tid reply m next,
      a = .advance tid reply
      ∧ s.request env tid reply = some (.send m next)
      ∧ s' = s.perform env tid (.send m next)
      ∧ s'.sent = s.sent ++ [m] := by
  cases a with
  | advance tid reply =>
      obtain ⟨r, hr, rfl⟩ := Option.map_eq_some_iff.mp h
      cases r with
      | send m next =>
          exact Or.inr ⟨tid, reply, m, next, rfl, hr, rfl, continueAt_sent _⟩
      | commit tx ok raised =>
          refine Or.inl ?_
          unfold State.perform
          simp only
          split
          · exact continueAt_sent _
          · exact continueAt_sent _
      | _ => exact Or.inl (continueAt_sent _)
  | tick d =>
      injection h with h
      subst h
      exact Or.inl rfl
  | crash tid =>
      injection h with h
      subst h
      exact Or.inl rfl
  | start tid entry =>
      unfold apply at h
      simp only at h
      split at h
      · injection h with h
        subst h
        exact Or.inl rfl
      · cases h
  | deliver tid mid =>
      unfold apply at h
      simp only at h
      split at h
      · obtain ⟨m, -, rfl⟩ := Option.map_eq_some_iff.mp h
        exact Or.inl rfl
      · cases h

/-- Messages are never unsent. -/
theorem apply_sent_kept (h : apply env a s = some s') {mid : Nat}
    {m : Message} (hm : s.sent[mid]? = some m) :
    s'.sent[mid]? = some m := by
  rcases apply_sent h with heq | ⟨_, _, m', _, -, -, -, heq⟩
  · rw [heq]
    exact hm
  · have hlt : mid < s.sent.length := (List.getElem?_eq_some_iff.mp hm).1
    rw [heq, List.getElem?_append_left hlt]
    exact hm

/-- Events are never unlogged. -/
theorem apply_log (h : apply env a s = some s') :
    ∃ new, s'.log = new ++ s.log := by
  rcases apply_db h with
    ⟨-, -, hlog | ⟨_, _, e, _, -, -, hlog⟩⟩
      | ⟨tx, -, ⟨-, hlog⟩ | ⟨-, hlog⟩⟩
  · exact ⟨[], hlog⟩
  · exact ⟨[e], hlog⟩
  · exact ⟨[], hlog⟩
  · exact ⟨_, hlog⟩

/-- A step leaves the database alone or commits one transaction. -/
theorem apply_committed (h : apply env a s = some s') :
    s'.db = s.db ∨ ∃ tx, committing env a s = some tx
      ∧ Committed tx s.now s.db s'.db := by
  rcases apply_db h with ⟨hdb, -, -⟩ | ⟨tx, htx, ⟨hdb, -⟩ | ⟨hc, -⟩⟩
  · exact Or.inl hdb
  · exact Or.inl hdb
  · exact Or.inr ⟨tx, htx, commit_spec hc⟩

/-- Runs persist and keep their identity. -/
theorem apply_run (h : apply env a s = some s') {k : Uuid} {r : Run}
    (hr : s.db.runs.get k = some r) :
    ∃ r', s'.db.runs.get k = some r' ∧ RunMove r r' := by
  rcases apply_committed h with hdb | ⟨tx, -, hc⟩
  · rw [hdb]
    exact ⟨r, hr, RunMove.refl r⟩
  · exact hc.runs.persists hr

/-- Sessions persist and keep their identity. -/
theorem apply_session (h : apply env a s = some s') {k : Uuid}
    {r : Session} (hr : s.db.sessions.get k = some r) :
    ∃ r', s'.db.sessions.get k = some r' ∧ SessionKept r r' := by
  rcases apply_committed h with hdb | ⟨tx, -, hc⟩
  · rw [hdb]
    exact ⟨r, hr, SessionKept.refl r⟩
  · exact hc.sessions.persists hr

/-- A request is a handler's or a worker's. -/
theorem request_cases {reply : Reply} {r : Request Pc}
    (h : s.request env tid reply = some r) :
    (∃ hd r₀, (s.tasks tid).pc = .handler hd
        ∧ hd.request env s.now s.db s.inFlight reply = some r₀
        ∧ r = r₀.map .handler)
      ∨ (∃ w r₀, (s.tasks tid).pc = .worker w
        ∧ w.request env s.db reply = some r₀
        ∧ r = r₀.map .worker) := by
  unfold State.request at h
  cases hpc : (s.tasks tid).pc with
  | handler hd =>
      rw [hpc] at h
      obtain ⟨r₀, hr₀, rfl⟩ := Option.map_eq_some_iff.mp h
      exact Or.inl ⟨hd, r₀, rfl, hr₀, rfl⟩
  | worker w =>
      rw [hpc] at h
      obtain ⟨r₀, hr₀, rfl⟩ := Option.map_eq_some_iff.mp h
      exact Or.inr ⟨w, r₀, rfl, hr₀, rfl⟩

/-- In every state reached, each run's session is there. -/
theorem reaches_runsLinked {G : Action → State → Prop}
    (h : Reaches env G s) : RunsLinked s.db := by
  refine Lts.Reachable.invariant (P := fun s => RunsLinked s.db) ?_ ?_ h
  · intro k r hk
    cases hk
  · intro s a s' _ hl _ hstep
    rcases apply_committed hstep with hdb | ⟨tx, -, hc⟩
    · rw [hdb]
      exact hl
    · exact hc.runsLinked hl

/-- In every state reached, each session's job is there. -/
theorem reaches_sessionsLinked {G : Action → State → Prop}
    (h : Reaches env G s) : SessionsLinked s.db := by
  refine Lts.Reachable.invariant (P := fun s => SessionsLinked s.db)
    ?_ ?_ h
  · intro k r hk
    cases hk
  · intro s a s' _ hl _ hstep
    rcases apply_db hstep with
      ⟨hdb, -, -⟩ | ⟨tx, -, ⟨hdb, -⟩ | ⟨hc, -⟩⟩
    · rw [hdb]
      exact hl
    · rw [hdb]
      exact hl
    · exact commit_sessionsLinked hc hl

/-- So no row that `_resume_run` reads is missing. -/
theorem resumeTransition_commits {now : Time} {db : Db} {rid : Uuid}
    {run : Run} (hr : RunsLinked db) (hs : SessionsLinked db)
    (hrun : db.runs.get rid = some run) :
    ∃ db', resumeTransition db now rid = .ok db' := by
  obtain ⟨session, hsession, hjob⟩ := hr rid run hrun
  obtain ⟨job, hget⟩ := hs run.sessionId session hsession
  rw [hjob] at hget
  unfold resumeTransition
  simp only [hrun, hsession, hget, scalarOne, bind, Except.bind]
  split
  · exact ⟨_, rfl⟩
  · exact ⟨_, rfl⟩

end Inversion

-- =============================================================== scenarios

/-- The default settings, and a schema validator that accepts. -/
def Env.default : Env := ⟨Settings.default, fun _ _ => true⟩

/-- Actor 0 ingests an item (job 2) and dispatches it; worker 1 starts
run 11 on session 10. -/
def firstStart : List Action :=
  [.start 0 (.ingest ⟨"email", "m1", none, []⟩ "alice"),
    .advance 0 (.fresh [1, 2] ""),
    .start 0 .dispatchOnce, .advance 0 .ok, .advance 0 (.locked []),
    .advance 0 .ok, .advance 0 .ok, .advance 0 .ok,
    .deliver 1 0, .advance 1 (.fresh [10, 11] "a")]

/-- Worker 1 takes its run to a clean end and releases the slot. -/
def cleanFinish : List Action :=
  [.advance 1 .ok, .advance 1 .ok, .advance 1 .ok,
    .advance 1 (.output ⟨[], none⟩), .advance 1 (.fresh [] ""),
    .advance 1 (.interrupts []), .advance 1 .ok, .advance 1 .ok,
    .advance 1 .ok, .advance 1 .ok, .advance 1 .ok]

/-- Actor 2 posts a message on session 10, which starts run 21. -/
def followUp : List Action :=
  [.start 2 (.postMessage 10 "hi"), .advance 2 .ok, .advance 2 .ok,
    .advance 2 (.fresh [20, 21] "")]

/-- Run 11 asks a question: interrupt 30 is open on session 10. -/
def asked : List Action :=
  firstStart ++
  [.advance 1 .ok, .advance 1 .ok, .advance 1 .ok,
    .advance 1 (.output ⟨[], none⟩), .advance 1 (.fresh [] ""),
    .advance 1 (.interrupts [.obj []]), .advance 1 .ok,
    .advance 1 (.interrupts [.obj []]), .advance 1 (.fresh [30] ""),
    .advance 1 .ok, .advance 1 .ok, .advance 1 .ok]

/-- What the operator answers. -/
def answer : InterruptResolution :=
  .info (some [("name", .str "Ana")]) false none []

/-- Actor 2 answers, and worker 3 resumes the run. -/
def answered : List Action :=
  [.start 2 (.resolve 10 answer none), .advance 2 .ok,
    .advance 2 (.fresh [40] ""), .advance 2 .ok,
    .deliver 3 1, .advance 3 .ok, .advance 3 .ok, .advance 3 .ok,
    .advance 3 .ok]

end LegalBot
