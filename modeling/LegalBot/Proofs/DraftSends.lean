/-
What becomes of a draft over any number of `send_draft` calls.

# Delivered once

Nothing in a call looks at the status of the row or claims it, so a
second call hands the draft to the provider again: after the first has
marked it, next to it, or after a crash between the two. When a call
reads its row only if no other call has it, the provider has not
accepted it and it is not marked (`Unclaimed`), every draft is accepted
once at most and no adapter is called with a marked one.

# Marked as sent

The row is marked whatever `send_result.ok` says. When every call that
commits was answered `ok`, or finds its row marked, and no call that was
answered `ok` stops before its commit (`Honest`), a marked row is one
that an adapter has sent, and one that an adapter has sent is marked or
about to be.
-/
import LegalBot.Agents.Sending

namespace LegalBot.Sending

open Relational (HasKey Table)
open Firing (parseUuid)
open Tools

-- ================================================================== drafts

section Rows

variable {drafts drafts' : Table Draft} {k : Uuid} {row : Draft}

theorem markSent_get (id : Uuid) :
    (markSent drafts id).get k
      = (drafts.get k).map fun r =>
          if r.id = id then { r with status := "sent" } else r := by
  unfold markSent
  rw [Table.get_updateWhere]
  cases drafts.get k with
  | none => rfl
  | some r => by_cases hid : r.id = id <;> simp [hid]

theorem markSent_other {id : Uuid} (h : k ≠ id) :
    (markSent drafts id).get k = drafts.get k := by
  rw [markSent_get]
  cases hget : drafts.get k with
  | none => rfl
  | some r =>
      have hkey : r.id = k := Table.key_of_get hget
      rw [Option.map_some, if_neg (by rw [hkey]; exact h)]

theorem markSent_self (h : drafts.get k = some row) :
    (markSent drafts k).get k = some { row with status := "sent" } := by
  have hkey : row.id = k := Table.key_of_get h
  rw [markSent_get, h, Option.map_some, if_pos hkey]

theorem markSent_some {id : Uuid} (h : drafts.get k = some row) :
    ∃ row', (markSent drafts id).get k = some row' := by
  rw [markSent_get, h]
  exact ⟨_, rfl⟩

end Rows

-- ================================================================= one call

/-- No call has the draft, the provider has not accepted it, and its row
is not marked. -/
structure Unclaimed (s : State) (id : Uuid) : Prop where
  free : ∀ c d, (s.calls c).draft = some d → d.id ≠ id
  unaccepted : Event.accepted id ∉ s.log
  unmarked : ∀ r, s.drafts.get id = some r → r.status ≠ "sent"

/-- A call reads the row of an unclaimed draft. -/
def ClaimsFirst : Action → State → Prop
  | .readDraft c, s =>
      ∀ draftId id, s.calls c = .received draftId →
        parseUuid (.str draftId) = some id → Unclaimed s id
  | _, _ => True

/-- Every draft is accepted once at most, and no adapter was called with
one that was marked. -/
def SentOnce (s : State) : Prop :=
  ∀ id, s.log.count (.accepted id) ≤ 1
    ∧ Event.called id (some "sent") ∉ s.log

/-- What the calls, the rows and the log have to do with each other. -/
structure Claimed (drafts : Table Draft) (calls : Nat → Call)
    (log : List Event) : Prop where
  one : ∀ c c' d d', (calls c).draft = some d → (calls c').draft = some d' →
    d.id = d'.id → c = c'
  unaccepted : ∀ c d, (calls c).unsent = some d →
    Event.accepted d.id ∉ log
  unmarked : ∀ c d, (calls c).unsent = some d →
    ∀ r, drafts.get d.id = some r → r.status ≠ "sent"
  once : ∀ id, log.count (.accepted id) ≤ 1
  checked : ∀ id, Event.called id (some "sent") ∉ log

theorem Call.draft_of_unsent {call : Call} {d : Draft}
    (h : call.unsent = some d) : call.draft = some d := by
  cases call with
  | idle => cases h
  | received draftId => cases h
  | read draft => exact h
  | resolved draft mailbox email => exact h
  | answered draft result => cases h

section Calls

variable {drafts : Table Draft} {calls : Nat → Call} {log : List Event}
  {c : Nat} {call : Call}

/-- A call that keeps no more than it had. -/
theorem Claimed.narrow (h : Claimed drafts calls log)
    (hdraft : ∀ d, call.draft = some d → (calls c).draft = some d)
    (hunsent : ∀ d, call.unsent = some d → (calls c).unsent = some d) :
    Claimed drafts (Function.update calls c call) log := by
  have hold : ∀ c' d, (Function.update calls c call c').draft = some d →
      (calls c').draft = some d := by
    intro c' d hd
    by_cases hc : c' = c
    · subst hc
      rw [Function.update_self] at hd
      exact hdraft d hd
    · rw [Function.update_of_ne hc] at hd
      exact hd
  have hopen : ∀ c' d, (Function.update calls c call c').unsent = some d →
      (calls c').unsent = some d := by
    intro c' d hd
    by_cases hc : c' = c
    · subst hc
      rw [Function.update_self] at hd
      exact hunsent d hd
    · rw [Function.update_of_ne hc] at hd
      exact hd
  exact
    { one := fun c₁ c₂ d d' h₁ h₂ =>
        h.one c₁ c₂ d d' (hold c₁ d h₁) (hold c₂ d' h₂)
      unaccepted := fun c' d hd => h.unaccepted c' d (hopen c' d hd)
      unmarked := fun c' d hd => h.unmarked c' d (hopen c' d hd)
      once := h.once
      checked := h.checked }

/-- Another call that has not sent its draft has another draft. -/
theorem Claimed.other {d d' : Draft} {c' : Nat}
    (h : Claimed drafts calls log) (hd : (calls c).draft = some d)
    (hd' : (Function.update calls c call c').unsent = some d')
    (hsent : call.unsent = none) : c' ≠ c ∧ d'.id ≠ d.id := by
  by_cases hc : c' = c
  · subst hc
    rw [Function.update_self, hsent] at hd'
    cases hd'
  · refine ⟨hc, fun hid => hc ?_⟩
    rw [Function.update_of_ne hc] at hd'
    exact h.one c' c d' d (Call.draft_of_unsent hd') hd hid

end Calls

/-- What an adapter call adds to the log about acceptances. -/
theorem count_answerEvents {id id' : Uuid} {answer : Answer}
    {status : Option String} {log : List Event} :
    (answerEvents id answer ++ .called id status :: log).count
        (.accepted id')
      ≤ (if id = id' then 1 else 0) + log.count (.accepted id') := by
  have hcalled : (Event.called id status :: log).count (.accepted id')
      = log.count (.accepted id') :=
    List.count_cons_of_ne (by simp)
  have hanswer : (answerEvents id answer).count (.accepted id')
      ≤ if id = id' then 1 else 0 := by
    cases answer with
    | returned result accepted =>
        cases accepted <;>
          by_cases hid : id = id' <;>
            simp [answerEvents, Answer.accepted, hid]
    | raised accepted =>
        cases accepted <;>
          by_cases hid : id = id' <;>
            simp [answerEvents, Answer.accepted, hid]
  rw [List.count_append, hcalled]
  omega

theorem called_notMem_answerEvents {id id' : Uuid} {answer : Answer}
    {status : Option String} :
    Event.called id' status ∉ answerEvents id answer := by
  cases answer with
  | returned result accepted =>
      cases accepted <;> simp [answerEvents, Answer.accepted]
  | raised accepted =>
      cases accepted <;> simp [answerEvents, Answer.accepted]

theorem accepted_mem_answerEvents {id id' : Uuid} {answer : Answer}
    (h : Event.accepted id' ∈ answerEvents id answer) : id' = id := by
  cases answer with
  | returned result accepted =>
      cases accepted <;> simp_all [answerEvents, Answer.accepted]
  | raised accepted =>
      cases accepted <;> simp_all [answerEvents, Answer.accepted]

/-- A call reads the row of an unclaimed draft. -/
theorem Claimed.reads {s : State} {c : Nat} {draft : Draft}
    (h : Claimed s.drafts s.calls s.log) (hfree : Unclaimed s draft.id) :
    Claimed s.drafts (Function.update s.calls c (.read draft)) s.log := by
  have hold : ∀ c' d, (Function.update s.calls c (Call.read draft)
      c').draft = some d → (s.calls c').draft = some d
        ∨ (c' = c ∧ d = draft) := by
    intro c' d hd
    by_cases hc : c' = c
    · subst hc
      rw [Function.update_self] at hd
      injection hd with hd
      exact Or.inr ⟨rfl, hd.symm⟩
    · rw [Function.update_of_ne hc] at hd
      exact Or.inl hd
  have hopen : ∀ c' d, (Function.update s.calls c (Call.read draft)
      c').unsent = some d → (s.calls c').unsent = some d ∨ d = draft := by
    intro c' d hd
    by_cases hc : c' = c
    · subst hc
      rw [Function.update_self] at hd
      injection hd with hd
      exact Or.inr hd.symm
    · rw [Function.update_of_ne hc] at hd
      exact Or.inl hd
  refine { h with
    one := fun c₁ c₂ d d' h₁ h₂ hid => ?_
    unaccepted := fun c' d hd => ?_
    unmarked := fun c' d hd => ?_ }
  · cases hold c₁ d h₁ with
    | inl h₁ =>
        cases hold c₂ d' h₂ with
        | inl h₂ => exact h.one c₁ c₂ d d' h₁ h₂ hid
        | inr h₂ =>
            rw [h₂.2] at hid
            exact absurd hid (hfree.free c₁ d h₁)
    | inr h₁ =>
        cases hold c₂ d' h₂ with
        | inl h₂ =>
            rw [h₁.2] at hid
            exact absurd hid.symm (hfree.free c₂ d' h₂)
        | inr h₂ => exact h₁.1.trans h₂.1.symm
  · cases hopen c' d hd with
    | inl hd => exact h.unaccepted c' d hd
    | inr hd =>
        rw [hd]
        exact hfree.unaccepted
  · cases hopen c' d hd with
    | inl hd => exact h.unmarked c' d hd
    | inr hd =>
        rw [hd]
        exact hfree.unmarked

/-- A call hands its draft to the provider, and is over or answered. -/
theorem Claimed.sends {drafts : Table Draft} {calls : Nat → Call}
    {log : List Event} {c : Nat} {call : Call} {draft : Draft}
    {answer : Answer} (h : Claimed drafts calls log)
    (hunsent : (calls c).unsent = some draft) (hcall : call.unsent = none)
    (hdraft : ∀ d, call.draft = some d → d = draft) :
    Claimed drafts (Function.update calls c call)
      (answerEvents draft.id answer ++ .called draft.id
        ((drafts.get draft.id).map (·.status)) :: log) := by
  have hdraft₀ : (calls c).draft = some draft :=
    Call.draft_of_unsent hunsent
  have hnarrow : Claimed drafts (Function.update calls c call) log :=
    h.narrow (fun d hd => by rw [hdraft d hd, hdraft₀])
      fun d hd => by rw [hcall] at hd; cases hd
  refine
    { one := hnarrow.one
      unaccepted := fun c' d hd hmem => ?_
      unmarked := hnarrow.unmarked
      once := fun id => ?_
      checked := fun id hmem => ?_ }
  · -- the draft of another call is another one
    have hother := (h.other hdraft₀ hd hcall).2
    rcases List.mem_append.mp hmem with hmem | hmem
    · exact hother (accepted_mem_answerEvents hmem)
    · cases hmem with
      | tail _ hmem => exact hnarrow.unaccepted c' d hd hmem
  · have hcount := @count_answerEvents draft.id id answer
      ((drafts.get draft.id).map (·.status)) log
    by_cases hid : draft.id = id
    · subst hid
      have hzero := List.count_eq_zero.mpr (h.unaccepted c draft hunsent)
      rw [hzero, if_pos rfl] at hcount
      exact hcount
    · have honce := h.once id
      rw [if_neg hid] at hcount
      omega
  · rcases List.mem_append.mp hmem with hmem | hmem
    · exact called_notMem_answerEvents hmem
    · rcases List.mem_cons.mp hmem with heq | hmem
      · injection heq with hid hstatus
        obtain ⟨r, hr, hsent⟩ := Option.map_eq_some_iff.mp hstatus.symm
        exact h.unmarked c draft hunsent r hr hsent
      · exact h.checked id hmem

/-- A step that claims before it reads keeps the drafts apart. -/
theorem moved_claimed {a : Action} {s s' : State} (hmoved : Moved s a s')
    (hguard : ClaimsFirst a s) (h : Claimed s.drafts s.calls s.log) :
    Claimed s'.drafts s'.calls s'.log := by
  cases hmoved with
  | around drafts calls log =>
      rw [drafts, calls, log]
      exact h
  | @wrote _ _ row inserted status calls log =>
      rw [calls, log]
      refine { h with unmarked := fun c d hd r hr => ?_ }
      rw [Table.get_insert inserted] at hr
      split at hr
      · injection hr with hr
        rw [← hr, status]
        decide
      · exact h.unmarked c d hd r hr
  | @call c draftId idle =>
      exact h.narrow (fun d hd => by cases hd) fun d hd => by cases hd
  | @readDraft c draftId draft received parsed row =>
      exact h.reads (hguard draftId draft.id received parsed)
  | @resolve c draft mailbox email read =>
      refine h.narrow (fun d hd => ?_) fun d hd => ?_
      · rw [read]
        exact hd
      · rw [read]
        exact hd
  | @sent c draft mailbox email answer call resolved after =>
      have hunsent : (s.calls c).unsent = some draft := by
        rw [resolved]
        rfl
      rcases after with ⟨result, accepted, -, hcall⟩ | ⟨accepted, -, hcall⟩
      · subst hcall
        exact h.sends hunsent rfl fun d hd => by
          injection hd with hd
          exact hd.symm
      · subst hcall
        exact h.sends hunsent rfl fun d hd => by cases hd
  | @committed c draft result answered =>
      have hnarrow : Claimed s.drafts
          (Function.update s.calls c .idle) s.log :=
        h.narrow (fun d hd => by cases hd) fun d hd => by cases hd
      refine { hnarrow with unmarked := fun c' d hd r hr => ?_ }
      have hother := (h.other (by rw [answered]; rfl) hd rfl).2
      rw [show State.drafts _ = markSent s.drafts draft.id from rfl,
        markSent_other hother] at hr
      exact hnarrow.unmarked c' d hd r hr
  | @ended _ c busy unanswered =>
      exact h.narrow (fun d hd => by cases hd) fun d hd => by cases hd

theorem claimed_init :
    Claimed State.init.drafts State.init.calls State.init.log :=
  { one := fun _ _ _ _ h => by cases h
    unaccepted := fun _ _ h => by cases h
    unmarked := fun _ _ h => by cases h
    once := fun _ => Nat.zero_le _
    checked := fun _ h => by cases h }

/-- In a run whose calls read unclaimed drafts only, no draft is
delivered twice. -/
theorem drafts_sent_once {env : Env} {s : State}
    (h : Lts.Reachable (apply env) ClaimsFirst State.init s) :
    SentOnce s := by
  have hclaimed : Claimed s.drafts s.calls s.log := by
    refine Lts.Reachable.invariant
      (P := fun s => Claimed s.drafts s.calls s.log) claimed_init ?_ h
    intro s a s' _ hc hguard ha
    exact moved_claimed (apply_moved ha) hguard hc
  exact fun id => ⟨hclaimed.once id, hclaimed.checked id⟩

/-- A step that reads no draft. -/
def Unread : Action → State → Prop
  | .readDraft _, _ => False
  | _, _ => True

/-- Such a step reads no claimed draft. -/
theorem ClaimsFirst.of_unread {a : Action} {s : State}
    (h : Unread a s) : ClaimsFirst a s := by
  cases a with
  | readDraft c => exact h.elim
  | _ => trivial

/-- Until the first read, no call has a draft and nothing has happened
to any. -/
theorem unread_quiet {env : Env} {s : State}
    (h : Lts.Reachable (apply env) Unread State.init s) :
    (∀ c, (s.calls c).draft = none) ∧ s.log = [] := by
  refine Lts.Reachable.invariant
    (P := fun s => (∀ c, (s.calls c).draft = none) ∧ s.log = [])
    ⟨fun _ => rfl, rfl⟩ ?_ h
  intro s a s' _ hp hguard ha
  have hidle : ∀ c call, call.draft = none →
      ∀ c', (Function.update s.calls c call c').draft = none := by
    intro c call hcall c'
    by_cases hc : c' = c
    · subst hc
      rw [Function.update_self]
      exact hcall
    · rw [Function.update_of_ne hc]
      exact hp.1 c'
  cases apply_moved ha with
  | around drafts calls log =>
      rw [calls, log]
      exact hp
  | wrote inserted status calls log =>
      rw [calls, log]
      exact hp
  | call idle => exact ⟨hidle _ _ rfl, hp.2⟩
  | readDraft received parsed row => exact hguard.elim
  | @resolve c draft mailbox email read =>
      have hnone := hp.1 c
      rw [read] at hnone
      cases hnone
  | @sent c draft mailbox email answer call resolved after =>
      have hnone := hp.1 c
      rw [resolved] at hnone
      cases hnone
  | @committed c draft result answered =>
      have hnone := hp.1 c
      rw [answered] at hnone
      cases hnone
  | ended busy unanswered => exact ⟨hidle _ _ rfl, hp.2⟩

-- =============================================================== scenarios

/-- The built-in adapters, and an email that came in through mailbox
60. -/
def Env.builtin : Env :=
  { base := .default, emails := fun _ => ⟨some 60, some "m1"⟩
    adapters := builtinAdapters }

/-- Run 11 of session 10 writes draft 90, whose mailbox is at that
provider, and call 0 is to send it. -/
def draftWritten (provider : String) : List Action :=
  firstStart.map .base ++
  [.addMailbox ⟨60, provider, "alice@firm.example", none, "alice"⟩,
    .writeDraft 90 10 (some 11) 80 "Re: contract" "Agreed." ["bob"] none,
    .call 0 "90"]

/-- What the fake provider answers. -/
def delivered : Answer := .returned ⟨some "p1", true, none⟩ true

/-- What the Gmail adapter answers. -/
def refused : Answer :=
  .returned ⟨none, false, some "send not enabled v1"⟩ false

/-- The steps of a call after its first. -/
def sends (c : Nat) (answer : Answer) : List Action :=
  [.readDraft c, .resolve c, .send c answer, .commit c]

theorem draftWritten_unread {provider : String} :
    ∀ a ∈ draftWritten provider, ∀ s, Unread a s := by
  intro a ha s
  rcases List.mem_append.mp ha with ha | ha
  · obtain ⟨b, -, rfl⟩ := List.mem_map.mp ha
    trivial
  · simp only [List.mem_cons, List.not_mem_nil, or_false] at ha
    rcases ha with rfl | rfl | rfl <;> trivial

/-- One call: the draft is accepted, and once. -/
theorem single_call_delivers : ∃ s,
    Lts.run (apply Env.builtin) State.init
        (draftWritten "fake" ++ sends 0 delivered) = some s
      ∧ s.log.count (.accepted 90) = 1 ∧ SentOnce s := by
  obtain ⟨s₁, hs₁⟩ := Option.isSome_iff_exists.mp
    (show (Lts.run (apply Env.builtin) State.init
      (draftWritten "fake")).isSome by decide +kernel)
  have hstatus : (Lts.run (apply Env.builtin) State.init
      (draftWritten "fake")).bind
        (fun s => (s.drafts.get 90).map (·.status)) = some "drafted" := by
    decide +kernel
  have hcall : (Lts.run (apply Env.builtin) State.init
      (draftWritten "fake")).map (fun s => s.calls 0)
        = some (.received "90") := by
    decide +kernel
  have hcount : (Lts.run (apply Env.builtin) State.init
      (draftWritten "fake" ++ sends 0 delivered)).map
        (fun s => s.log.count (.accepted 90)) = some 1 := by
    decide +kernel
  obtain ⟨s, hs, hone⟩ := Option.map_eq_some_iff.mp hcount
  rw [hs₁] at hstatus hcall
  have hunread : Lts.Reachable (apply Env.builtin) Unread State.init s₁ :=
    Lts.reachable_of_run_all draftWritten_unread .init hs₁
  obtain ⟨hfree, hlog⟩ := unread_quiet hunread
  have hunclaimed : Unclaimed s₁ 90 :=
    { free := fun c d hd => by
        rw [hfree c] at hd
        cases hd
      unaccepted := by
        rw [hlog]
        exact List.not_mem_nil
      unmarked := fun r hr => by
        rw [Option.bind_some, hr] at hstatus
        injection hstatus with hstatus
        rw [show r.status = "drafted" from hstatus]
        decide }
  refine ⟨s, hs, hone, drafts_sent_once (?_ : Lts.Reachable
    (apply Env.builtin) ClaimsFirst State.init s)⟩
  have hrest := hs
  rw [Lts.run_append hs₁] at hrest
  cases hread : apply Env.builtin (.readDraft 0) s₁ with
  | none =>
      rw [sends, Lts.run, hread] at hrest
      cases hrest
  | some s₂ =>
      rw [sends, Lts.run, hread] at hrest
      have hreach₁ := hunread.mono fun _ _ => ClaimsFirst.of_unread
      have hreach₂ : Lts.Reachable (apply Env.builtin) ClaimsFirst
          State.init s₂ := by
        refine .step (.readDraft 0) hreach₁ (fun draftId id h hid => ?_)
          hread
        rw [Option.map_some, h] at hcall
        injection hcall with hcall
        injection hcall with hcall
        rw [hcall] at hid
        injection hid with hid
        rw [← hid]
        exact hunclaimed
      refine Lts.reachable_of_run_all (fun a ha _ => ?_) hreach₂ hrest
      simp only [List.mem_cons, List.not_mem_nil, or_false] at ha
      rcases ha with rfl | rfl | rfl <;> trivial

/-- A second call delivers the draft again, which is marked by then. -/
theorem draft_delivered_twice :
    ¬ ∀ s, Lts.Reachable (apply Env.builtin) Lts.Always State.init s →
      SentOnce s := by
  intro h
  have hcount : (Lts.run (apply Env.builtin) State.init
      (draftWritten "fake" ++ sends 0 delivered ++ [.call 0 "90"]
        ++ sends 0 delivered)).map
        (fun s => s.log.count (.accepted 90)) = some 2 := by
    decide +kernel
  obtain ⟨s, hs, htwo⟩ := Option.map_eq_some_iff.mp hcount
  have honce := (h s (Lts.reachable_of_run .init hs) 90).1
  omega

-- ========================================================== marked as sent

/-- The row of the draft has status `sent`. -/
def Marked (s : State) (id : Uuid) : Prop :=
  (s.drafts.get id).map (·.status) = some "sent"

/-- A call that commits was answered `ok`, or its row is marked already;
a call that stops after its answer was not, or its row is. -/
def Honest : Action → State → Prop
  | .commit c, s =>
      match s.calls c with
      | .answered draft result => result.ok = true ∨ Marked s draft.id
      | _ => True
  | .stop c, s =>
      match s.calls c with
      | .answered draft result => result.ok = false ∨ Marked s draft.id
      | _ => True
  | _, _ => True

/-- A call of the draft was answered `ok` and is about to commit. -/
def AboutToMark (calls : Nat → Call) (id : Uuid) : Prop :=
  ∃ c draft result, calls c = .answered draft result ∧ draft.id = id
    ∧ result.ok = true

/-- A row is marked only if an adapter has sent its draft, and a draft
that an adapter has sent is marked, or about to be. -/
def Truthful (s : State) : Prop :=
  ∀ id row, s.drafts.get id = some row →
    (row.status = "sent" → Event.answered id true ∈ s.log)
    ∧ (Event.answered id true ∈ s.log →
      row.status = "sent" ∨ AboutToMark s.calls id)

/-- A step that is not the commit of an answer `ok` for the row leaves
its status as it was. -/
def StatusKept (s : State) (a : Action) (s' : State) : Prop :=
  ∀ id row, s.drafts.get id = some row →
    (∀ c draft result, a = .commit c → s.calls c = .answered draft result →
      draft.id = id → result.ok = false) →
    ∃ row', s'.drafts.get id = some row' ∧ row'.status = row.status

/-- What the answers in the log have to do with the rows and the
calls. -/
structure Told (drafts : Table Draft) (calls : Nat → Call)
    (log : List Event) : Prop where
  held : ∀ c d, (calls c).draft = some d → ∃ row,
    drafts.get d.id = some row
  known : ∀ id, Event.answered id true ∈ log → ∃ row,
    drafts.get id = some row
  answered : ∀ c draft result, calls c = .answered draft result →
    result.ok = true → Event.answered draft.id true ∈ log
  marked : ∀ id row, drafts.get id = some row → row.status = "sent" →
    Event.answered id true ∈ log
  sent : ∀ id row, drafts.get id = some row →
    Event.answered id true ∈ log →
    row.status = "sent" ∨ AboutToMark calls id

section Answers

variable {drafts : Table Draft} {calls : Nat → Call} {log : List Event}
  {c : Nat} {call : Call}

theorem AboutToMark.update {id : Uuid} (h : AboutToMark calls id)
    (hc : ∀ draft result, calls c = .answered draft result →
      draft.id = id → result.ok = false) :
    AboutToMark (Function.update calls c call) id := by
  obtain ⟨c', draft, result, hcall, hid, hok⟩ := h
  have hne : c' ≠ c := by
    intro heq
    subst heq
    have hfalse := hc draft result hcall hid
    rw [hok] at hfalse
    cases hfalse
  refine ⟨c', draft, result, ?_, hid, hok⟩
  rw [Function.update_of_ne hne]
  exact hcall

/-- A call that has no answer moves on to where it has none. -/
theorem Told.moves (h : Told drafts calls log)
    (hbefore : ∀ draft result, calls c = .answered draft result →
      result.ok = false ∨ ∃ row, drafts.get draft.id = some row
        ∧ row.status = "sent")
    (hafter : ∀ draft result, call ≠ .answered draft result)
    (hheld : ∀ d, call.draft = some d → ∃ row,
      drafts.get d.id = some row) :
    Told drafts (Function.update calls c call) log := by
  refine { h with
    held := fun c' d hd => ?_
    answered := fun c' draft result hcall hok => ?_
    sent := fun id row hrow hlog => ?_ }
  · by_cases hc : c' = c
    · subst hc
      rw [Function.update_self] at hd
      exact hheld d hd
    · rw [Function.update_of_ne hc] at hd
      exact h.held c' d hd
  · by_cases hc : c' = c
    · subst hc
      rw [Function.update_self] at hcall
      exact absurd hcall (hafter draft result)
    · rw [Function.update_of_ne hc] at hcall
      exact h.answered c' draft result hcall hok
  · by_cases hmarked : row.status = "sent"
    · exact Or.inl hmarked
    · cases h.sent id row hrow hlog with
      | inl hsent => exact Or.inl hsent
      | inr habout =>
          refine Or.inr (habout.update fun draft result hcall hid => ?_)
          cases hbefore draft result hcall with
          | inl hfalse => exact hfalse
          | inr hsent =>
              obtain ⟨row', hrow', hsent⟩ := hsent
              rw [hid, hrow] at hrow'
              injection hrow' with hrow'
              exact absurd (hrow' ▸ hsent) hmarked

end Answers

theorem answered_mem_answerEvents {id id' : Uuid} {answer : Answer}
    {ok : Bool} :
    Event.answered id' ok ∈ answerEvents id answer
      ↔ id' = id ∧ ∃ result accepted,
        answer = .returned result accepted ∧ result.ok = ok := by
  cases answer with
  | returned result accepted =>
      cases accepted <;> simp [answerEvents, Answer.accepted, eq_comm]
  | raised accepted =>
      cases accepted <;> simp [answerEvents, Answer.accepted]

/-- A call hands its draft to the provider. -/
theorem Told.sends {drafts : Table Draft} {calls : Nat → Call}
    {log : List Event} {c : Nat} {call : Call} {draft : Draft}
    {answer : Answer} {status : Option String}
    (h : Told drafts calls log) (hunsent : (calls c).unsent = some draft)
    (hcall : (∃ result accepted, answer = .returned result accepted
        ∧ call = .answered draft result)
      ∨ ∃ accepted, answer = .raised accepted ∧ call = .idle) :
    Told drafts (Function.update calls c call)
      (answerEvents draft.id answer
        ++ .called draft.id status :: log) := by
  have hrow := h.held c draft (Call.draft_of_unsent hunsent)
  have hunanswered : ∀ d result, calls c ≠ .answered d result := by
    intro d result heq
    rw [heq] at hunsent
    cases hunsent
  have hlog : ∀ {id}, Event.answered id true ∈ answerEvents draft.id answer
        ++ .called draft.id status :: log →
      Event.answered id true ∈ answerEvents draft.id answer
        ∨ Event.answered id true ∈ log := by
    intro id hmem
    rcases List.mem_append.mp hmem with hmem | hmem
    · exact Or.inl hmem
    · cases hmem with
      | tail _ hmem => exact Or.inr hmem
  have hgrow : ∀ {e}, e ∈ log → e ∈ answerEvents draft.id answer
      ++ .called draft.id status :: log := fun hmem =>
    List.mem_append_right _ (List.mem_cons_of_mem _ hmem)
  refine
    { held := fun c' d hd => ?_
      known := fun id hmem => ?_
      answered := fun c' d result hanswered hok => ?_
      marked := fun id row hget hsent => hgrow (h.marked id row hget hsent)
      sent := fun id row hget hmem => ?_ }
  · by_cases hc : c' = c
    · subst hc
      rw [Function.update_self] at hd
      rcases hcall with ⟨result, accepted, -, hcall⟩ | ⟨accepted, -, hcall⟩
      · rw [hcall] at hd
        injection hd with hd
        rw [← hd]
        exact hrow
      · rw [hcall] at hd
        cases hd
    · rw [Function.update_of_ne hc] at hd
      exact h.held c' d hd
  · cases hlog hmem with
    | inl hmem =>
        rw [(answered_mem_answerEvents.mp hmem).1]
        exact hrow
    | inr hmem => exact h.known id hmem
  · by_cases hc : c' = c
    · subst hc
      rw [Function.update_self] at hanswered
      rcases hcall with ⟨r, accepted, hanswer, hcall⟩ | ⟨accepted, -, hcall⟩
      · rw [hcall] at hanswered
        injection hanswered with hdraft hresult
        subst hdraft hresult
        exact List.mem_append_left _ (answered_mem_answerEvents.mpr
          ⟨rfl, r, accepted, hanswer, hok⟩)
      · rw [hcall] at hanswered
        cases hanswered
    · rw [Function.update_of_ne hc] at hanswered
      exact hgrow (h.answered c' d result hanswered hok)
  · cases hlog hmem with
    | inl hmem =>
        obtain ⟨hid, result, accepted, hanswer, hok⟩ :=
          answered_mem_answerEvents.mp hmem
        rcases hcall with ⟨r, b, hanswer', hcall⟩ | ⟨b, hanswer', -⟩
        · rw [hanswer] at hanswer'
          injection hanswer' with hresult _
          refine Or.inr ⟨c, draft, result, ?_, hid.symm, hok⟩
          rw [Function.update_self, hcall, hresult]
        · rw [hanswer] at hanswer'
          cases hanswer'
    | inr hmem =>
        cases h.sent id row hget hmem with
        | inl hsent => exact Or.inl hsent
        | inr habout =>
            exact Or.inr (habout.update fun d result heq _ =>
              absurd heq (hunanswered d result))

/-- A call commits an answer `ok`, or marks a row that is marked. -/
theorem Told.commits {s : State} {c : Nat} {draft : Draft}
    {result : SendResult} (h : Told s.drafts s.calls s.log)
    (hanswered : s.calls c = .answered draft result)
    (hhonest : result.ok = true ∨ Marked s draft.id) :
    Told (markSent s.drafts draft.id)
      (Function.update s.calls c .idle) s.log := by
  have hlog : Event.answered draft.id true ∈ s.log := by
    cases hhonest with
    | inl hok => exact h.answered c draft result hanswered hok
    | inr hmarked =>
        obtain ⟨row, hrow, hsent⟩ := Option.map_eq_some_iff.mp hmarked
        exact h.marked draft.id row hrow hsent
  refine
    { held := fun c' d hd => ?_
      known := fun id hmem => ?_
      answered := fun c' d result' hcall hok => ?_
      marked := fun id row hget hsent => ?_
      sent := fun id row hget hmem => ?_ }
  · by_cases hc : c' = c
    · subst hc
      rw [Function.update_self] at hd
      cases hd
    · rw [Function.update_of_ne hc] at hd
      obtain ⟨row, hrow⟩ := h.held c' d hd
      exact markSent_some hrow
  · obtain ⟨row, hrow⟩ := h.known id hmem
    exact markSent_some hrow
  · by_cases hc : c' = c
    · subst hc
      rw [Function.update_self] at hcall
      cases hcall
    · rw [Function.update_of_ne hc] at hcall
      exact h.answered c' d result' hcall hok
  · by_cases hid : id = draft.id
    · rw [hid]
      exact hlog
    · rw [markSent_other hid] at hget
      exact h.marked id row hget hsent
  · by_cases hid : id = draft.id
    · subst hid
      obtain ⟨row', hrow'⟩ := h.known draft.id hlog
      rw [markSent_self hrow'] at hget
      injection hget with hget
      exact Or.inl (by rw [← hget])
    · rw [markSent_other hid] at hget
      cases h.sent id row hget hmem with
      | inl hsent => exact Or.inl hsent
      | inr habout =>
          refine Or.inr (habout.update fun d r heq hdid => ?_)
          rw [hanswered] at heq
          injection heq with hd _
          exact absurd (hd ▸ hdid.symm) hid

/-- An honest step keeps what the log says of the rows. -/
theorem moved_told {a : Action} {s s' : State} (hmoved : Moved s a s')
    (hguard : Honest a s) (h : Told s.drafts s.calls s.log) :
    Told s'.drafts s'.calls s'.log := by
  cases hmoved with
  | around drafts calls log =>
      rw [drafts, calls, log]
      exact h
  | @wrote _ _ row inserted status calls log =>
      rw [calls, log]
      have hkept : ∀ {k r}, s.drafts.get k = some r →
          s'.drafts.get k = some r := fun hget =>
        Table.get_insert_of_some inserted hget
      have hnew : ∀ {k r}, s'.drafts.get k = some r → r.status = "sent" →
          s.drafts.get k = some r := by
        intro k r hget hsent
        rw [Table.get_insert inserted] at hget
        split at hget
        · injection hget with hget
          rw [← hget, status] at hsent
          exact absurd hsent (by decide)
        · exact hget
      refine { h with
        held := fun c d hd => ?_
        known := fun id hmem => ?_
        marked := fun id r hget hsent =>
          h.marked id r (hnew hget hsent) hsent
        sent := fun id r hget hmem => ?_ }
      · obtain ⟨r, hr⟩ := h.held c d hd
        exact ⟨r, hkept hr⟩
      · obtain ⟨r, hr⟩ := h.known id hmem
        exact ⟨r, hkept hr⟩
      · obtain ⟨r', hr'⟩ := h.known id hmem
        rw [hkept hr'] at hget
        injection hget with hget
        subst hget
        exact h.sent id r' hr' hmem
  | @call c draftId idle =>
      refine h.moves (fun d r heq => ?_) (fun _ _ heq => by cases heq)
        fun d hd => by cases hd
      rw [idle] at heq
      cases heq
  | @readDraft c draftId draft received parsed row =>
      refine h.moves (fun d r heq => ?_) (fun _ _ heq => by cases heq)
        fun d hd => ?_
      · rw [received] at heq
        cases heq
      · injection hd with hd
        rw [← hd]
        exact ⟨draft, row⟩
  | @resolve c draft mailbox email read =>
      refine h.moves (fun d r heq => ?_) (fun _ _ heq => by cases heq)
        fun d hd => ?_
      · rw [read] at heq
        cases heq
      · refine h.held c d ?_
        rw [read]
        exact hd
  | @sent c draft mailbox email answer call resolved after =>
      exact h.sends (by rw [resolved]; rfl) after
  | @committed c draft result answered =>
      unfold Honest at hguard
      simp only [answered] at hguard
      exact h.commits answered hguard
  | @ended _ c busy unanswered =>
      refine h.moves (fun d r heq => ?_) (fun _ _ heq => by cases heq)
        fun d hd => by cases hd
      cases unanswered with
      | inl hnone => exact absurd heq (hnone d r)
      | inr hstop =>
          subst hstop
          unfold Honest at hguard
          simp only [heq] at hguard
          exact hguard.imp_right Option.map_eq_some_iff.mp

/-- An honest step that sends nothing leaves the status of every row. -/
theorem moved_statusKept {a : Action} {s s' : State}
    (hmoved : Moved s a s') (hguard : Honest a s) : StatusKept s a s' := by
  intro id row hrow hnot
  cases hmoved with
  | around drafts calls log =>
      rw [drafts]
      exact ⟨row, hrow, rfl⟩
  | wrote inserted status calls log =>
      exact ⟨row, Table.get_insert_of_some inserted hrow, rfl⟩
  | @committed c draft result answered =>
      show ∃ row', (markSent s.drafts draft.id).get id = some row' ∧ _
      by_cases hid : draft.id = id
      · subst hid
        have hfalse := hnot c draft result rfl answered rfl
        unfold Honest at hguard
        simp only [answered] at hguard
        cases hguard with
        | inl hok =>
            rw [hfalse] at hok
            cases hok
        | inr hmarked =>
            obtain ⟨row', hrow', hsent⟩ := Option.map_eq_some_iff.mp hmarked
            rw [hrow] at hrow'
            injection hrow' with hrow'
            exact ⟨_, markSent_self hrow, (hrow' ▸ hsent).symm⟩
      · rw [markSent_other fun heq => hid heq.symm]
        exact ⟨row, hrow, rfl⟩
  | call idle => exact ⟨row, hrow, rfl⟩
  | readDraft received parsed hget => exact ⟨row, hrow, rfl⟩
  | resolve read => exact ⟨row, hrow, rfl⟩
  | sent resolved after => exact ⟨row, hrow, rfl⟩
  | ended busy unanswered => exact ⟨row, hrow, rfl⟩

theorem told_init :
    Told State.init.drafts State.init.calls State.init.log :=
  { held := fun _ _ h => by cases h
    known := fun _ h => by cases h
    answered := fun _ _ _ h => by cases h
    marked := fun _ _ h => by cases h
    sent := fun _ _ h => by cases h }

/-- In an honest run the status of every draft tells whether an adapter
has sent it, and nothing but the commit of such an answer changes it. -/
theorem status_truthful {env : Env} {s : State}
    (h : Lts.Reachable (apply env) Honest State.init s) :
    Truthful s ∧ ∀ a s', Honest a s → apply env a s = some s' →
      StatusKept s a s' := by
  have htold : Told s.drafts s.calls s.log := by
    refine Lts.Reachable.invariant
      (P := fun s => Told s.drafts s.calls s.log) told_init ?_ h
    intro s a s' _ ht hguard ha
    exact moved_told (apply_moved ha) hguard ht
  refine ⟨fun id row hrow => ?_, fun a s' hguard ha => ?_⟩
  · exact ⟨htold.marked id row hrow, htold.sent id row hrow⟩
  · exact moved_statusKept (apply_moved ha) hguard

instance (s : State) (id : Uuid) : Decidable (Marked s id) := by
  unfold Marked
  infer_instance

instance (a : Action) (s : State) : Decidable (Honest a s) := by
  unfold Honest
  split
  · split <;> infer_instance
  · split <;> infer_instance
  · infer_instance

/-- A draft that is delivered is marked. -/
theorem delivered_draft_marked : ∃ s,
    Lts.run (Lts.guarded (apply Env.builtin) Honest) State.init
        (draftWritten "fake" ++ sends 0 delivered) = some s
      ∧ Marked s 90
      ∧ Truthful s ∧ ∀ a s', Honest a s →
        apply Env.builtin a s = some s' → StatusKept s a s' := by
  have hmarked : (Lts.run (Lts.guarded (apply Env.builtin) Honest)
      State.init (draftWritten "fake" ++ sends 0 delivered)).map
        (fun s => decide (Marked s 90)) = some true := by
    decide +kernel
  obtain ⟨s, hs, h⟩ := Option.map_eq_some_iff.mp hmarked
  exact ⟨s, hs, of_decide_eq_true h,
    status_truthful (Lts.reachable_of_guarded_run .init hs)⟩

/-- A draft that the Gmail adapter has refused is marked as sent. -/
theorem refused_draft_marked :
    ¬ ∀ s, Lts.Reachable (apply Env.builtin) Lts.Always State.init s →
      Truthful s := by
  intro h
  have hmarked : (Lts.run (apply Env.builtin) State.init
      (draftWritten "gmail" ++ sends 0 refused)).map
        (fun s => decide (Marked s 90)
          && decide (Event.answered 90 true ∉ s.log)) = some true := by
    decide +kernel
  obtain ⟨s, hs, hboth⟩ := Option.map_eq_some_iff.mp hmarked
  obtain ⟨hsent, hnever⟩ := Bool.and_eq_true_iff.mp hboth
  obtain ⟨row, hrow, hstatus⟩ :=
    Option.map_eq_some_iff.mp (of_decide_eq_true hsent)
  exact of_decide_eq_true hnever
    ((h s (Lts.reachable_of_run .init hs) 90 row hrow).1 hstatus)

end LegalBot.Sending
