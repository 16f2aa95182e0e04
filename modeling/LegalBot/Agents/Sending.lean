/-
`send_draft` on the orchestrated system: any number of tool calls, of
whatever run, each a connection of its own, next to everything
`Orchestrator/System.lean` does.

# A call

A call reads the row of its draft (`readDraft`), finds the mailbox of
the draft's session (`resolve`), hands the draft to the provider's
adapter (`send`), and marks the row and commits (`commit`). An exception
or a crash ends it at any point (`stop`) with nothing written. No step
of it looks at the status of the row.

Which calls an agent makes is not modelled: a run that calls twice, a
follow-up, a replay that repeats the call and a tool node that is
executed again are all `call` steps.

# The provider

An adapter answers with a result, or raises; whether the provider has
accepted the draft for delivery is another matter, since a call that
raises may have got through.

`log` is ghost, newest event first. `write_draft` is here as its insert
of the `draft` row; the artifact it writes is that of
`Artifacts/Service.lean`.
-/
import LegalBot.Agents.Domain
import LegalBot.Orchestrator.System

namespace LegalBot.Sending

open Relational (HasKey Table)
open Firing (parseUuid)
open Tools

-- =============================================================== adapters

/-- How the `send_draft` of an adapter ends, and whether the provider has
accepted the draft. -/
inductive Answer where
  | returned (result : SendResult) (accepted : Bool)
  | raised (accepted : Bool)
  deriving DecidableEq

def Answer.accepted : Answer → Bool
  | .returned _ accepted | .raised accepted => accepted

/-- The answers an adapter may give. -/
structure Adapter where
  answers : Mailbox → ProviderDraft → Answer → Bool

/-- `GmailAdapter.send_draft` and `OutlookAdapter.send_draft`. -/
def notEnabled : Adapter :=
  { answers := fun _ _ answer => decide (answer = .returned
      { providerMessageId := none, ok := false
        error := some "send not enabled v1" } false) }

/-- `FakeEmailProvider.send_draft`: the draft is sent under a new id. -/
def fakeProvider : Adapter :=
  { answers := fun _ _ answer =>
      match answer with
      | .returned result accepted =>
          result.providerMessageId.isSome && result.ok
            && result.error.isNone && accepted
      | .raised _ => false }

/-- The adapters that are built in. -/
def builtinAdapters (provider : String) : Option Adapter :=
  if provider = "gmail" ∨ provider = "outlook" then some notEnabled
  else if provider = "fake" then some fakeProvider
  else none

-- ================================================================= states

/-- The environment: that of the orchestration, the columns the emails
were ingested with, and the registered adapters. -/
structure Env where
  base : LegalBot.Env
  emails : Uuid → EmailColumns
  adapters : String → Option Adapter

/-- How far a call is. -/
inductive Call where
  | idle
  | received (draftId : String)
  | read (draft : Draft)
  | resolved (draft : Draft) (mailbox : Mailbox) (email : EmailColumns)
  | answered (draft : Draft) (result : SendResult)
  deriving DecidableEq

/-- The row a call has read. -/
def Call.draft : Call → Option Draft
  | .idle | .received _ => none
  | .read draft | .resolved draft _ _ | .answered draft _ => some draft

/-- The row a call has read and not handed to the provider. -/
def Call.unsent : Call → Option Draft
  | .read draft | .resolved draft _ _ => some draft
  | .idle | .received _ | .answered .. => none

/-- What has happened to a draft: an adapter was called with it when its
row had that status, the provider accepted it, an adapter returned. -/
inductive Event where
  | called (draftId : Uuid) (status : Option String)
  | accepted (draftId : Uuid)
  | answered (draftId : Uuid) (ok : Bool)
  deriving DecidableEq

/-- The state of the system. -/
structure State where
  base : LegalBot.State
  mailboxes : Table Mailbox
  drafts : Table Draft
  calls : Nat → Call
  log : List Event

/-- The empty deployment. -/
def State.init : State :=
  { base := .init, mailboxes := .empty, drafts := .empty
    calls := fun _ => .idle, log := [] }

/-- What may happen next. -/
inductive Action where
  | base (a : LegalBot.Action)
  | addMailbox (row : Mailbox)
  | removeMailbox (id : Uuid)
  | writeDraft (id sessionId : Uuid) (runId : Option Uuid)
      (artifactId : Uuid) (subject bodyText : String)
      (toAddrs : List String) (inReplyTo : Option String)
  | call (c : Nat) (draftId : String)
  | readDraft (c : Nat)
  | resolve (c : Nat)
  | send (c : Nat) (answer : Answer)
  | commit (c : Nat)
  | stop (c : Nat)

-- ================================================================== steps

/-- Move a call on. -/
def State.goto (s : State) (c : Nat) (call : Call) : State :=
  { s with calls := Function.update s.calls c call }

/-- The tables as a tool sees them; it reads no file here. -/
def State.tables (env : Env) (s : State) : ToolDb :=
  { db := s.base.db, emails := env.emails, files := fun _ => ⟨none, none⟩
    mailboxes := s.mailboxes, drafts := s.drafts }

/-- The row `write_draft` inserts. -/
def newDraft (session : Session) (id : Uuid) (runId : Option Uuid)
    (artifactId : Uuid) (subject bodyText : String)
    (toAddrs : List String) (inReplyTo : Option String) : Draft :=
  { id := id, jobId := session.jobId, sessionId := session.id
    runId := runId, artifactId := artifactId, subject := some subject
    bodyText := some bodyText, toAddrs := some toAddrs, ccAddrs := none
    inReplyToMessageId := inReplyTo, status := "drafted" }

/-- What an adapter call leaves in the log. -/
def answerEvents (id : Uuid) (answer : Answer) : List Event :=
  (match answer with
    | .returned result _ => [.answered id result.ok]
    | .raised _ => [])
  ++ if answer.accepted then [.accepted id] else []

/-- Take one step, or `none` when it is not enabled. -/
def apply (env : Env) (a : Action) (s : State) : Option State :=
  match a with
  | .base a =>
      (LegalBot.apply env.base a s.base).map fun base =>
        { s with base := base }
  | .addMailbox row =>
      (s.mailboxes.insert row).map fun mailboxes =>
        { s with mailboxes := mailboxes }
  | .removeMailbox id =>
      some { s with mailboxes := s.mailboxes.erase id }
  | .writeDraft id sid runId artifactId subject bodyText toAddrs reply =>
      match s.base.db.sessions.get sid with
      | none => none
      | some session =>
          (s.drafts.insert (newDraft session id runId artifactId subject
            bodyText toAddrs reply)).map fun drafts =>
              { s with drafts := drafts }
  | .call c draftId =>
      match s.calls c with
      | .idle => some (s.goto c (.received draftId))
      | _ => none
  | .readDraft c =>
      match s.calls c with
      | .received draftId =>
          match (parseUuid (.str draftId)).bind s.drafts.get with
          | some draft => some (s.goto c (.read draft))
          | none => some (s.goto c .idle)  -- no UUID, or no such row
      | _ => none
  | .resolve c =>
      match s.calls c with
      | .read draft =>
          match resolveMailbox (s.tables env) draft.sessionId with
          | some (mailbox, email) =>
              some (s.goto c (.resolved draft mailbox email))
          | none => some (s.goto c .idle)
      | _ => none
  | .send c answer =>
      match s.calls c with
      | .resolved draft mailbox email =>
          match env.adapters mailbox.provider with
          | none => some (s.goto c .idle)  -- unknown provider
          | some adapter =>
              if adapter.answers mailbox (providerDraft draft email) answer
              then
                let call :=
                  match answer with
                  | .returned result _ => Call.answered draft result
                  | .raised _ => .idle
                some { s.goto c call with
                  log := answerEvents draft.id answer
                    ++ .called draft.id
                      ((s.drafts.get draft.id).map (·.status)) :: s.log }
              else none
      | _ => none
  | .commit c =>
      match s.calls c with
      | .answered draft _ =>
          some { s.goto c .idle with drafts := markSent s.drafts draft.id }
      | _ => none
  | .stop c =>
      match s.calls c with
      | .idle => none
      | _ => some (s.goto c .idle)

-- ======================================================= what a step does

/-- What a step does to the drafts, the calls and the log. -/
inductive Moved (s : State) : Action → State → Prop
  | around {a s'} (drafts : s'.drafts = s.drafts)
      (calls : s'.calls = s.calls) (log : s'.log = s.log) :
      Moved s a s'
  | wrote {a s' row} (inserted : s.drafts.insert row = some s'.drafts)
      (status : row.status = "drafted") (calls : s'.calls = s.calls)
      (log : s'.log = s.log) : Moved s a s'
  | call {c draftId} (idle : s.calls c = .idle) :
      Moved s (.call c draftId) (s.goto c (.received draftId))
  | readDraft {c draftId draft} (received : s.calls c = .received draftId)
      (parsed : parseUuid (.str draftId) = some draft.id)
      (row : s.drafts.get draft.id = some draft) :
      Moved s (.readDraft c) (s.goto c (.read draft))
  | resolve {c draft mailbox email} (read : s.calls c = .read draft) :
      Moved s (.resolve c) (s.goto c (.resolved draft mailbox email))
  | sent {c draft mailbox email answer call}
      (resolved : s.calls c = .resolved draft mailbox email)
      (after : (∃ result accepted, answer = .returned result accepted
          ∧ call = .answered draft result)
        ∨ ∃ accepted, answer = .raised accepted ∧ call = .idle) :
      Moved s (.send c answer) { s.goto c call with
        log := answerEvents draft.id answer
          ++ .called draft.id
            ((s.drafts.get draft.id).map (·.status)) :: s.log }
  | committed {c draft result}
      (answered : s.calls c = .answered draft result) :
      Moved s (.commit c)
        { s.goto c .idle with drafts := markSent s.drafts draft.id }
  | ended {a c} (busy : s.calls c ≠ .idle)
      (unanswered : (∀ draft result, s.calls c ≠ .answered draft result)
        ∨ a = .stop c) :
      Moved s a (s.goto c .idle)

theorem apply_moved {env : Env} {a : Action} {s s' : State}
    (h : apply env a s = some s') : Moved s a s' := by
  cases a with
  | base a =>
      obtain ⟨base, -, rfl⟩ := Option.map_eq_some_iff.mp h
      exact .around rfl rfl rfl
  | addMailbox row =>
      obtain ⟨mailboxes, -, rfl⟩ := Option.map_eq_some_iff.mp h
      exact .around rfl rfl rfl
  | removeMailbox id =>
      injection h with h
      subst h
      exact .around rfl rfl rfl
  | writeDraft id sid runId artifactId subject bodyText toAddrs reply =>
      unfold apply at h
      simp only at h
      split at h
      · cases h
      · obtain ⟨drafts, hdrafts, rfl⟩ := Option.map_eq_some_iff.mp h
        exact .wrote hdrafts rfl rfl rfl
  | call c draftId =>
      unfold apply at h
      simp only at h
      split at h
      · rename_i hidle
        injection h with h
        subst h
        exact .call hidle
      · cases h
  | readDraft c =>
      unfold apply at h
      simp only at h
      split at h
      · rename_i draftId hreceived
        split at h
        · rename_i draft hrow
          injection h with h
          subst h
          obtain ⟨id, hid, hget⟩ := Option.bind_eq_some_iff.mp hrow
          have hkey : draft.id = id := Table.key_of_get hget
          subst hkey
          exact .readDraft hreceived hid hget
        · injection h with h
          subst h
          exact .ended (by
              rw [hreceived]
              exact fun h => by cases h)
            (Or.inl fun _ _ => by
              rw [hreceived]
              exact fun h => by cases h)
      · cases h
  | resolve c =>
      unfold apply at h
      simp only at h
      split at h
      · rename_i draft hread
        split at h
        · injection h with h
          subst h
          exact .resolve hread
        · injection h with h
          subst h
          exact .ended (by rw [hread]; exact (fun h => by cases h))
            (Or.inl fun _ _ => by rw [hread]; exact (fun h => by cases h))
      · cases h
  | send c answer =>
      unfold apply at h
      simp only at h
      split at h
      · rename_i draft mailbox email hresolved
        split at h
        · injection h with h
          subst h
          exact .ended (by
              rw [hresolved]
              exact fun h => by cases h)
            (Or.inl fun _ _ => by
              rw [hresolved]
              exact fun h => by cases h)
        · split at h
          · injection h with h
            subst h
            refine .sent hresolved ?_
            cases answer with
            | returned result accepted =>
                exact Or.inl ⟨result, accepted, rfl, rfl⟩
            | raised accepted => exact Or.inr ⟨accepted, rfl, rfl⟩
          · cases h
      · cases h
  | commit c =>
      unfold apply at h
      simp only at h
      split at h
      · rename_i draft result hanswered
        injection h with h
        subst h
        exact .committed hanswered
      · cases h
  | stop c =>
      unfold apply at h
      simp only at h
      split at h
      · cases h
      · rename_i hopen
        injection h with h
        subst h
        exact .ended (fun hidle => hopen hidle) (Or.inr rfl)

end LegalBot.Sending
