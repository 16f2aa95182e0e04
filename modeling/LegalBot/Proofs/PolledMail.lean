/-
Where mail is between the cursor of its mailbox and its item.

# The gap

A poll commits its cursor before it has enqueued what it listed. From
then until the loop has come to a message, the message is in the memory
of the poll and nowhere else, and a poll that is redelivered after a
crash starts from the new cursor. So the first poll that commits after
listing a message breaks `NoneLost`, crash or not, and until then there
is nothing to lose (`none_lost_iff`).
-/
import LegalBot.Ingestion.Polling

namespace LegalBot.Polling

open Lts (Along Always Reachable)
open Mail (RawMessage)

variable {d : Deployment} {s s' : State} {a : Action} {w v : Nat}
  {mb : Uuid}

-- ================================================================== workers

@[simp] theorem moveTo_self (point : Point) :
    ((s.moveTo w point).workers w).point = point := by
  simp [State.moveTo]

@[simp] theorem moveTo_message (point : Point) :
    ((s.moveTo w point).workers w).message = (s.workers w).message := by
  simp [State.moveTo]

theorem moveTo_of_ne (h : v ≠ w) (point : Point) :
    (s.moveTo w point).workers v = s.workers v :=
  Function.update_of_ne h ..

/-- Mail that arrives comes after what is in the inbox. -/
theorem inbox_arrive (s : State) (mb : Uuid) (raw : RawMessage)
    (mb' : Uuid) :
    s.inbox mb' <+: Function.update s.inbox mb (s.inbox mb ++ [raw]) mb' := by
  by_cases hmb : mb' = mb
  · subst hmb
    rw [Function.update_self]
    exact List.prefix_append _ _
  · rw [Function.update_of_ne hmb]

/-- What holds of every point of the workers still does after one of them
has moved, if it holds of where it is. -/
theorem moveTo_points {P : Point → Prop} {point : Point} (hpoint : P point)
    (h : ∀ v, P (s.workers v).point) (v : Nat) :
    P ((s.moveTo w point).workers v).point := by
  by_cases hv : v = w
  · subst hv
    rw [moveTo_self]
    exact hpoint
  · rw [moveTo_of_ne hv]
    exact h v

-- ============================================================ before any mail

/-- What a poll commits to: the messages it has listed. -/
def committedMail (a : Action) (s : State) : List RawMessage :=
  match a with
  | .commitCursor w =>
      match (s.workers w).point with
      | .listed _ _ messages _ => messages
      | _ => []
  | _ => []

/-- Where a worker may be before any poll has committed mail. -/
def Point.Untouched (d : Deployment) (inbox : Uuid → List RawMessage) :
    Point → Prop
  | .listing mb cursor =>
      (d.adapter mb).position (cursorValue cursor) = 0
  | .listed mb cursor messages newCursor =>
      (d.adapter mb).position (cursorValue cursor) = 0
        ∧ ∃ front, front <+: inbox mb
          ∧ (∀ m, m ∈ messages ↔ m ∈ front)
          ∧ (d.adapter mb).position newCursor = front.length
  | .enqueuing _ rest => rest = []
  | .ingest _ _ => False
  | .fetched _ _ _ => False
  | _ => True

/-- No poll has committed mail: every cursor is at the start, and there
is no item and no task that would bring one. -/
structure Untouched (d : Deployment) (s : State) : Prop where
  items : s.db.items.rows = []
  cursors : ∀ mb, (d.adapter mb).position (cursorValue (s.cursor mb)) = 0
  sent : ∀ mb id, TaskMessage.ingestMessage mb id ∉ s.sent
  points : ∀ w, (s.workers w).point.Untouched d s.inbox

theorem Untouched.noneLost (h : Untouched d s) : NoneLost d s := by
  intro mb raw hraw
  unfold polled at hraw
  rw [h.cursors mb, List.take_zero] at hraw
  cases hraw

theorem init_untouched : Untouched d State.init where
  items := rfl
  cursors mb := (d.adapter mb).start
  sent _ _ := List.not_mem_nil
  points _ := trivial

/-- Mail that arrives changes nothing about the points. -/
theorem Point.Untouched.arrive {inbox inbox' : Uuid → List RawMessage}
    {point : Point} (h : point.Untouched d inbox)
    (hgrown : ∀ mb, inbox mb <+: inbox' mb) : point.Untouched d inbox' := by
  cases point with
  | listed mb cursor messages newCursor =>
      obtain ⟨hcursor, front, hfront, hmem, hposition⟩ := h
      exact ⟨hcursor, front, hfront.trans (hgrown mb), hmem, hposition⟩
  | _ => exact h

theorem Untouched.moveTo (h : Untouched d s) {point : Point}
    (hpoint : point.Untouched d s.inbox) : Untouched d (s.moveTo w point) :=
  ⟨h.items, h.cursors, h.sent,
    moveTo_points (P := Point.Untouched d s.inbox) hpoint h.points⟩

/-- A worker that takes a task or goes back to its start. -/
theorem Untouched.setWorker (h : Untouched d s) {worker : Worker}
    (hpoint : worker.point.Untouched d s.inbox) (v : Nat) :
    ((Function.update s.workers w worker) v).point.Untouched d s.inbox := by
  by_cases hv : v = w
  · subst hv
    rw [Function.update_self]
    exact hpoint
  · rw [Function.update_of_ne hv]
    exact h.points v

/-- A task that is delivered is a poll's. -/
theorem Untouched.deliver (h : Untouched d s) {k : Nat}
    (hstep : step d (.deliver w k) s = some s') : Untouched d s' := by
  unfold step at hstep
  cases hw : (s.workers w).point with
  | idle =>
      simp only [hw] at hstep
      split at hstep
      · cases hstep
      obtain ⟨message, hk, rfl⟩ := Option.map_eq_some_iff.mp hstep
      refine ⟨h.items, h.cursors, h.sent, h.setWorker ?_⟩
      cases message with
      | pollMailbox mb => trivial
      | ingestMessage mb id => exact h.sent mb id (List.mem_of_getElem? hk)
  | _ => simp [hw] at hstep

/-- A poll that reads its cursor starts at the beginning of the inbox. -/
theorem Untouched.readMailbox (h : Untouched d s)
    (hstep : readMailbox d s w = some s') : Untouched d s' := by
  unfold Polling.readMailbox at hstep
  cases hw : (s.workers w).point with
  | poll mb =>
      simp only [hw] at hstep
      split at hstep
      · cases hstep
        exact h.moveTo (h.cursors mb)
      · cases hstep
        exact h.moveTo trivial
  | _ => simp [hw] at hstep

/-- What it lists is then the whole inbox. -/
theorem Untouched.listMessages (h : Untouched d s)
    (hstep : listMessages d s w = some s') : Untouched d s' := by
  unfold Polling.listMessages at hstep
  have hpoint := h.points w
  cases hw : (s.workers w).point with
  | listing mb cursor =>
      rw [hw] at hpoint
      simp only [hw] at hstep
      cases hstep
      have hstart : (d.adapter mb).position (cursorValue cursor) = 0 :=
        hpoint
      refine h.moveTo ⟨hstart, s.inbox mb, List.prefix_rfl,
        fun m => ?_, ?_⟩
      · rw [(d.adapter mb).lists, hstart, List.drop_zero]
      · rw [(d.adapter mb).advances, hstart, Nat.zero_max]
  | _ => simp [hw] at hstep

/-- A poll that has listed nothing leaves its cursor at the start. -/
theorem Untouched.commitCursor (h : Untouched d s)
    (hstep : commitCursor s w = some s')
    (hmail : committedMail (.commitCursor w) s = []) : Untouched d s' := by
  unfold Polling.commitCursor at hstep
  unfold committedMail at hmail
  have hpoint := h.points w
  cases hw : (s.workers w).point with
  | listed mb cursor messages newCursor =>
      rw [hw] at hpoint
      simp only [hw] at hstep hmail
      injection hstep with hstep
      subst hmail
      subst hstep
      obtain ⟨hcursor, front, hfront, hmem, hposition⟩ := hpoint
      have hnone : front = [] :=
        List.eq_nil_iff_forall_not_mem.mpr fun m hm =>
          absurd ((hmem m).mpr hm) List.not_mem_nil
      by_cases hsame : cursor = some newCursor
      · rw [if_pos hsame]
        exact h.moveTo rfl
      · rw [if_neg hsame]
        have hkept : Untouched d { s with
            cursor := Function.update s.cursor mb (some newCursor) } := by
          refine ⟨h.items, fun mb' => ?_, h.sent, h.points⟩
          show (d.adapter mb').position (cursorValue
            (Function.update s.cursor mb (some newCursor) mb')) = 0
          by_cases hmb : mb' = mb
          · subst hmb
            rw [Function.update_self]
            show (d.adapter mb').position newCursor = 0
            rw [hposition, hnone]
            rfl
          · rw [Function.update_of_ne hmb]
            exact h.cursors mb'
        exact hkept.moveTo rfl
  | _ => simp [hw] at hstep

/-- Until a poll commits mail, nothing happens to any. -/
theorem step_untouched (h : Untouched d s) (hstep : step d a s = some s')
    (hmail : committedMail a s = []) : Untouched d s' := by
  cases a with
  | tick seconds =>
      cases hstep
      exact ⟨h.items, h.cursors, h.sent, h.points⟩
  | arrive mb raw =>
      cases hstep
      exact ⟨h.items, h.cursors, h.sent, fun w =>
        (h.points w).arrive (inbox_arrive s mb raw)⟩
  | schedule mb =>
      cases hstep
      refine ⟨h.items, h.cursors, fun mb' id hsent => ?_, h.points⟩
      rcases List.mem_append.mp hsent with hsent | hsent
      · exact h.sent mb' id hsent
      · rw [List.mem_singleton] at hsent
        cases hsent
  | deliver w k => exact h.deliver hstep
  | readMailbox w => exact h.readMailbox hstep
  | listMessages w => exact h.listMessages hstep
  | commitCursor w => exact h.commitCursor hstep hmail
  | enqueue w =>
      unfold step enqueue at hstep
      have hpoint := h.points w
      cases hw : (s.workers w).point with
      | enqueuing mb rest =>
          rw [hw] at hpoint
          have hnone : rest = [] := hpoint
          subst hnone
          simp only [hw] at hstep
          cases hstep
          exact h.moveTo trivial
      | _ => simp [hw] at hstep
  | fetch w raw =>
      unfold step fetch at hstep
      have hpoint := h.points w
      cases hw : (s.workers w).point with
      | ingest mb id =>
          rw [hw] at hpoint
          exact hpoint.elim
      | _ => simp [hw] at hstep
  | upsert w itemId jobId ids =>
      unfold step commitItem at hstep
      have hpoint := h.points w
      cases hw : (s.workers w).point with
      | fetched mb owner raw =>
          rw [hw] at hpoint
          exact hpoint.elim
      | _ => simp [hw] at hstep
  | raise w =>
      unfold step at hstep
      cases hw : (s.workers w).point with
      | idle => simp [hw] at hstep
      | _ =>
          simp only [hw] at hstep
          cases hstep
          exact h.moveTo trivial
  | acknowledge w =>
      unfold step at hstep
      simp only at hstep
      split at hstep
      · cases hstep
        exact ⟨h.items, h.cursors, h.sent, h.setWorker trivial⟩
      · cases hstep
  | crash w =>
      cases hstep
      exact ⟨h.items, h.cursors, h.sent, h.setWorker trivial⟩

/-- The first poll that commits mail leaves it without an item and
without a task. -/
theorem committed_lost (h : Untouched d s) (hstep : step d a s = some s')
    (hmail : committedMail a s ≠ []) : ¬ NoneLost d s' := by
  cases a with
  | commitCursor w =>
      unfold committedMail at hmail
      unfold step commitCursor at hstep
      have hpoint := h.points w
      cases hw : (s.workers w).point with
      | listed mb cursor messages newCursor =>
          rw [hw] at hpoint
          simp only [hw] at hstep hmail
          obtain ⟨hcursor, front, hfront, hmem, hposition⟩ := hpoint
          obtain ⟨raw, hraw⟩ := List.exists_mem_of_ne_nil messages hmail
          have hlisted : raw ∈ front := (hmem raw).mp hraw
          -- the cursor has moved, so the column is written
          have hchanged : cursor ≠ some newCursor := by
            rintro rfl
            have hzero : (d.adapter mb).position newCursor = 0 := hcursor
            rw [hposition, List.length_eq_zero_iff] at hzero
            rw [hzero] at hlisted
            cases hlisted
          rw [if_neg hchanged] at hstep
          cases hstep
          intro hlost
          have hpolled : raw ∈ polled d (State.moveTo
              { s with
                cursor := Function.update s.cursor mb (some newCursor) }
              w (.enqueuing mb messages)) mb := by
            show raw ∈ (s.inbox mb).take ((d.adapter mb).position
              (cursorValue (Function.update s.cursor mb
                (some newCursor) mb)))
            rw [Function.update_self]
            show raw ∈ (s.inbox mb).take ((d.adapter mb).position newCursor)
            rw [hposition, ← List.prefix_iff_eq_take.mp hfront]
            exact hlisted
          rcases hlost mb raw hpolled with ⟨row, hrow, -⟩ | ⟨k, -, hk⟩
          · have hitems : row ∈ s.db.items.rows := hrow
            rw [h.items] at hitems
            cases hitems
          · exact h.sent mb _ (List.mem_of_getElem? hk)
      | _ => simp [hw] at hstep
  | _ => exact absurd rfl hmail

-- ============================================================== the result

/-- In a run from the start no message is ever lost exactly when no poll
commits after it has listed one. -/
theorem none_lost_iff (d : Deployment) (acts : List Action) :
    Along (step d) (fun _ _ s' => NoneLost d s') State.init acts
      ↔ Along (step d) (fun a s _ => committedMail a s = []) State.init
        acts := by
  refine Lts.along_iff (I := Untouched d) ?_ ?_ init_untouched
  · intro a s s' h hstep
    constructor
    · intro hnone
      by_contra hmail
      exact committed_lost h hstep hmail hnone
    · exact fun hmail => (step_untouched h hstep hmail).noneLost
  · exact fun a s s' h hstep hmail => step_untouched h hstep hmail

-- =============================================================== scenarios

/-- The position of a `history_id` cursor. -/
def historyPosition : Json → Nat
  | .obj [("history_id", .int n)] => n.toNat
  | _ => 0

/-- An adapter whose `history_id` counts the messages of the inbox. -/
def historyAdapter : Adapter where
  position := historyPosition
  listNewMessages inbox cursor :=
    (inbox.drop (historyPosition cursor),
      .obj [("history_id",
        .int (max (historyPosition cursor) inbox.length : Nat))])
  start := rfl
  lists _ _ _ := Iff.rfl
  advances _ _ := Int.toNat_natCast _

/-- Mailboxes of alice, polled through it. -/
def historyDeployment : Deployment :=
  ⟨fun _ => historyAdapter, fun _ => some "alice"⟩

/-- A message without attachments. -/
def mail : RawMessage :=
  { providerMessageId := "m1", providerThreadId := none, subject := none
    bodyText := none, bodyHtml := none, fromAddr := none, toAddrs := []
    ccAddrs := [], bccAddrs := [], inReplyTo := none, references := []
    headers := .obj [], receivedAt := none, attachments := []
    raw := .obj [] }

/-- A worker crashes between the commit of the cursor and the first
`delay`; the poll is redelivered, lists nothing, and is acknowledged. -/
def crashedPoll : List Action :=
  [.arrive 1 mail, .schedule 1, .deliver 0 0, .readMailbox 0,
    .listMessages 0, .commitCursor 0, .crash 0, .deliver 0 0,
    .readMailbox 0, .listMessages 0, .commitCursor 0, .enqueue 0,
    .acknowledge 0]

/-- Nothing is left to do, and the message is lost. -/
theorem crashed_poll_loses_mail :
    ¬ ∀ (d : Deployment) (acts : List Action) (s : State),
      Lts.run (step d) State.init acts = some s → NoneLost d s := by
  intro h
  obtain ⟨s, hs⟩ := Option.isSome_iff_exists.mp
    (show (Lts.run (step historyDeployment) State.init crashedPoll).isSome
      by decide +kernel)
  have hpolled : (Lts.run (step historyDeployment) State.init
      crashedPoll).map (fun s => (polled historyDeployment s 1).length)
      = some 1 := by decide +kernel
  have hleft : (Lts.run (step historyDeployment) State.init
      crashedPoll).map (fun s => (s.db.items.rows, s.sent))
      = some ([], [.pollMailbox 1]) := by decide +kernel
  rw [hs] at hpolled hleft
  have hlength : (polled historyDeployment s 1).length = 1 :=
    Option.some.inj hpolled
  obtain ⟨raw, hmem⟩ := List.exists_mem_of_length_pos (hlength ▸ Nat.one_pos)
  obtain ⟨hitems, hsent⟩ := Prod.mk.inj (Option.some.inj hleft)
  rcases h _ _ s hs 1 raw hmem with ⟨row, hrow, -⟩ | ⟨k, -, hk⟩
  · rw [hitems] at hrow
    cases hrow
  · have hqueued := List.mem_of_getElem? hk
    rw [hsent, List.mem_singleton] at hqueued
    cases hqueued

end LegalBot.Polling
