/-
What acknowledging late does give: a message at or before the cursor has
an item, or a task, or is in the hands of the poll that listed it, until
that poll or the `ingest_message` of the message drops it.

# The invariant

`Kept` adds the hands of the polls to `NoneLost`; `Drops` names the steps
that end a task with a message to enqueue or to ingest: a crash or an
exception inside the enqueue loop, and an exception in `ingest_message`,
whose failed task is acknowledged like one that has returned. What a
poll has read from the cursor stays kept while it lists
(`Point.Keeps`), so a poll with a stale cursor may set it back but never
past a message that is lost.

# The steps

A step moves one worker. `Keeping.move` asks what is particular to it:
what happens to the mail it held, to the cursor, and to its own point.
-/
import LegalBot.Proofs.PolledMail

namespace LegalBot.Polling

open Lts (Reachable)
open Mail (RawMessage)

variable {d : Deployment} {s s' : State} {a : Action} {w : Nat}
  {mb : Uuid} {raw : RawMessage}

-- ============================================================== statements

/-- An item with this `external_id`. -/
def ItemOf (db : Db) (id : String) : Prop :=
  ∃ row ∈ db.items.rows, row.source = "email" ∧ row.externalId = id

/-- A poll has the message in memory, still to be enqueued. -/
def InHand (s : State) (mb : Uuid) (raw : RawMessage) : Prop :=
  ∃ w rest, (s.workers w).point = .enqueuing mb rest ∧ raw ∈ rest

/-- The message has an item, a task, or a poll that will enqueue it. -/
def Kept (s : State) (mb : Uuid) (raw : RawMessage) : Prop :=
  HasItem s raw ∨ Queued s mb raw ∨ InHand s mb raw

/-- A worker at this point has mail that is nowhere else. -/
def Point.Holds : Point → Prop
  | .enqueuing _ rest => rest ≠ []
  | _ => False

/-- The step ends a task that has a message to enqueue or to ingest. -/
def Drops (d : Deployment) (a : Action) (s : State) : Prop :=
  match a with
  | .crash w => (s.workers w).point.Holds
  | .raise w =>
      match (s.workers w).point with
      | .ingest _ _ | .fetched _ _ _ => True
      | point => point.Holds
  | .fetch w _ =>
      match (s.workers w).point with
      | .ingest mb _ => d.owner mb = none
      | _ => False
  | .upsert w itemId jobId ids =>
      match (s.workers w).point with
      | .fetched _ owner raw => ∃ e,
          LegalBot.upsert s.db s.now (mappedItem raw) owner itemId jobId
            ids = .error e
      | _ => False
  | _ => False

-- =========================================================== the invariant

/-- Where the task of a message may be; at its end an `ingest_message`
has left an item. -/
def TaskMessage.At (db : Db) : TaskMessage → Point → Prop
  | .pollMailbox _, _ => True
  | .ingestMessage _ id, .ingest _ id' => id' = id
  | .ingestMessage _ id, .fetched _ _ raw => raw.providerMessageId = id
  | .ingestMessage _ id, .ended => ItemOf db id
  | .ingestMessage _ _, _ => False

/-- The cursor is in the inbox, and what is at or before it is kept, or is
in `messages`. -/
def KeptTo (d : Deployment) (s : State) (mb : Uuid) (cursor : Json)
    (messages : List RawMessage) : Prop :=
  (d.adapter mb).position cursor ≤ (s.inbox mb).length
    ∧ ∀ raw ∈ (s.inbox mb).take ((d.adapter mb).position cursor),
      raw ∈ messages ∨ Kept s mb raw

/-- What a poll has read and listed is kept, or is in its list. -/
def Point.Keeps (d : Deployment) (s : State) : Point → Prop
  | .listing mb cursor => KeptTo d s mb (cursorValue cursor) []
  | .listed mb _ messages newCursor => KeptTo d s mb newCursor messages
  | _ => True

/-- What a worker will acknowledge is the message of its task. -/
def Worker.Tasked (s : State) (worker : Worker) : Prop :=
  ∀ k, worker.message = some k → ∃ message, s.sent[k]? = some message
    ∧ message.At s.db worker.point

structure Keeping (d : Deployment) (s : State) : Prop where
  cursors : ∀ mb, KeptTo d s mb (cursorValue (s.cursor mb)) []
  points : ∀ w, (s.workers w).point.Keeps d s
  tasks : ∀ w, (s.workers w).Tasked s
  acked : ∀ k ∈ s.acked, k < s.sent.length

theorem init_keeping : Keeping d State.init where
  cursors mb := by
    have hstart := (d.adapter mb).start
    refine ⟨hstart.le, fun raw hraw => ?_⟩
    rw [show State.init.inbox mb = [] from rfl, List.take_nil] at hraw
    cases hraw
  points _ := trivial
  tasks _ _ h := by cases h
  acked k h := absurd h (Finset.notMem_empty k)

/-- What only grows. -/
structure Grows (s s' : State) : Prop where
  items : ∀ row ∈ s.db.items.rows, row ∈ s'.db.items.rows
  sent : s.sent <+: s'.sent
  inbox : ∀ mb, s.inbox mb <+: s'.inbox mb
  kept : ∀ mb raw, Kept s mb raw → Kept s' mb raw

theorem KeptTo.grow {cursor : Json} {messages : List RawMessage}
    (h : KeptTo d s mb cursor messages) (hg : Grows s s') :
    KeptTo d s' mb cursor messages := by
  obtain ⟨hle, hkept⟩ := h
  obtain ⟨rest, hrest⟩ := hg.inbox mb
  refine ⟨hle.trans (hg.inbox mb).length_le, fun raw hraw => ?_⟩
  rw [← hrest, List.take_append_of_le_length hle] at hraw
  exact (hkept raw hraw).imp_right (hg.kept mb raw)

theorem Point.Keeps.grow {point : Point} (h : point.Keeps d s)
    (hg : Grows s s') : point.Keeps d s' := by
  cases point with
  | listing mb cursor => exact KeptTo.grow h hg
  | listed mb cursor messages newCursor => exact KeptTo.grow h hg
  | _ => trivial

theorem TaskMessage.At.grow {message : TaskMessage} {point : Point}
    (h : message.At s.db point) (hg : Grows s s') :
    message.At s'.db point := by
  cases message with
  | pollMailbox mb => trivial
  | ingestMessage mb id =>
      cases point with
      | ended =>
          obtain ⟨row, hrow, hkey⟩ := h
          exact ⟨row, hg.items row hrow, hkey⟩
      | _ => exact h

theorem Worker.Tasked.grow {worker : Worker} (h : worker.Tasked s)
    (hg : Grows s s') : worker.Tasked s' := by
  intro k hk
  obtain ⟨message, hsent, hat⟩ := h k hk
  obtain ⟨rest, hrest⟩ := hg.sent
  refine ⟨message, ?_, hat.grow hg⟩
  rw [← hrest, List.getElem?_append_left (List.getElem?_eq_some_iff.mp
    hsent).1]
  exact hsent

-- =============================================================== the steps

/-- A step of one worker: everything else of the invariant is carried
over. -/
theorem Keeping.move (h : Keeping d s) (hg : Grows s s')
    (hothers : ∀ v, v ≠ w → s'.workers v = s.workers v)
    (hcursors : ∀ mb, s'.cursor mb = s.cursor mb
      ∨ KeptTo d s' mb (cursorValue (s'.cursor mb)) [])
    (hpoint : (s'.workers w).point.Keeps d s')
    (htask : (s'.workers w).Tasked s')
    (hacked : ∀ k ∈ s'.acked, k ∈ s.acked ∨ k < s'.sent.length) :
    Keeping d s' := by
  refine ⟨fun mb => ?_, fun v => ?_, fun v => ?_, fun k hk => ?_⟩
  · rcases hcursors mb with hsame | hkept
    · rw [hsame]
      exact (h.cursors mb).grow hg
    · exact hkept
  · by_cases hv : v = w
    · exact hv ▸ hpoint
    · rw [hothers v hv]
      exact (h.points v).grow hg
  · by_cases hv : v = w
    · exact hv ▸ htask
    · rw [hothers v hv]
      exact (h.tasks v).grow hg
  · rcases hacked k hk with hold | hnew
    · exact Nat.lt_of_lt_of_le (h.acked k hold) hg.sent.length_le
    · exact hnew

/-- Mail stays kept when the worker that moves holds none, and what it
acknowledges has left its item. -/
theorem grows_of_move (hitems : ∀ row ∈ s.db.items.rows,
      row ∈ s'.db.items.rows)
    (hsent : s.sent <+: s'.sent) (hinbox : ∀ mb, s.inbox mb <+: s'.inbox mb)
    (hacked : ∀ k ∈ s'.acked, k ∈ s.acked ∨ ∀ mb id,
      s.sent[k]? = some (.ingestMessage mb id) → ItemOf s'.db id)
    (hothers : ∀ v, v ≠ w → s'.workers v = s.workers v)
    (hholds : ∀ mb rest, (s.workers w).point = .enqueuing mb rest →
      ∀ raw ∈ rest, Kept s' mb raw) : Grows s s' := by
  refine ⟨hitems, hsent, hinbox, fun mb raw hkept => ?_⟩
  rcases hkept with ⟨row, hrow, hkey⟩ | ⟨k, hk, hmessage⟩ | ⟨v, rest, hv, hraw⟩
  · exact .inl ⟨row, hitems row hrow, hkey⟩
  · by_cases hnew : k ∈ s'.acked
    · exact .inl ((hacked k hnew).resolve_left hk _ _ hmessage)
    · obtain ⟨more, hmore⟩ := hsent
      refine .inr (.inl ⟨k, hnew, ?_⟩)
      rw [← hmore, List.getElem?_append_left
        (List.getElem?_eq_some_iff.mp hmessage).1]
      exact hmessage
  · by_cases hvw : v = w
    · exact hholds mb rest (hvw ▸ hv) raw hraw
    · exact .inr (.inr ⟨v, rest, by rw [hothers v hvw, hv], hraw⟩)

theorem grows_moveTo (hholds : ¬ (s.workers w).point.Holds)
    (point : Point) : Grows s (s.moveTo w point) := by
  refine grows_of_move (w := w) (fun _ h => h) List.prefix_rfl
    (fun _ => List.prefix_rfl) (fun _ h => .inl h)
    (fun v hv => moveTo_of_ne hv point) fun mb rest hw raw hraw => ?_
  refine absurd ?_ hholds
  rw [hw]
  exact List.ne_nil_of_mem hraw

/-- A worker that holds no mail goes on to another point. -/
theorem Keeping.moveTo (h : Keeping d s) {point : Point}
    (hholds : ¬ (s.workers w).point.Holds) (hpoint : point.Keeps d s)
    (htask : ∀ message : TaskMessage,
      message.At s.db (s.workers w).point → message.At s.db point) :
    Keeping d (s.moveTo w point) := by
  have hg := grows_moveTo hholds point
  refine h.move hg (fun v hv => moveTo_of_ne hv point)
    (fun _ => .inl rfl) ?_ ?_ fun _ hk => .inl hk
  · rw [moveTo_self]
    exact hpoint.grow hg
  · intro k hk
    rw [moveTo_message] at hk
    obtain ⟨message, hsent, hat⟩ := h.tasks w k hk
    refine ⟨message, hsent, ?_⟩
    rw [moveTo_self]
    exact htask message hat

/-- The task of a poll may be anywhere: what is at a point of a poll is a
poll. -/
theorem TaskMessage.At.poll {db : Db} {message : TaskMessage}
    {point point' : Point} (hat : message.At db point)
    (hpoll : ∀ mb id, ¬ (TaskMessage.ingestMessage mb id).At db point) :
    message.At db point' := by
  cases message with
  | pollMailbox mb => trivial
  | ingestMessage mb id => exact absurd hat (hpoll mb id)

/-- A poll, raising included, ends. -/
theorem Keeping.ended (h : Keeping d s)
    (hholds : ¬ (s.workers w).point.Holds)
    (hpoll : ∀ mb id, (TaskMessage.ingestMessage mb id).At s.db
      (s.workers w).point → ItemOf s.db id) :
    Keeping d (s.moveTo w .ended) := by
  refine h.moveTo hholds trivial fun message hat => ?_
  cases message with
  | pollMailbox mb => trivial
  | ingestMessage mb id => exact hpoll mb id hat

/-- Workers that stay where they are. -/
theorem Keeping.stay (h : Keeping d s) (hg : Grows s s')
    (hworkers : s'.workers = s.workers) (hcursor : s'.cursor = s.cursor)
    (hacked : s'.acked = s.acked) : Keeping d s' := by
  refine h.move (w := 0) hg (fun v _ => congrFun hworkers v)
    (fun mb => .inl (congrFun hcursor mb)) ?_ ?_
    fun k hk => .inl (hacked ▸ hk)
  · rw [hworkers]
    exact (h.points 0).grow hg
  · rw [hworkers]
    exact (h.tasks 0).grow hg

theorem grows_of_stay (hdb : s'.db = s.db) (hsent : s.sent <+: s'.sent)
    (hinbox : ∀ mb, s.inbox mb <+: s'.inbox mb)
    (hacked : s'.acked = s.acked) (hworkers : s'.workers = s.workers) :
    Grows s s' := by
  refine grows_of_move (w := 0) (by rw [hdb]; exact fun _ h => h) hsent
    hinbox (fun k hk => .inl (hacked ▸ hk))
    (fun v _ => congrFun hworkers v) fun mb rest hw raw hraw => ?_
  exact .inr (.inr ⟨0, rest, by rw [hworkers]; exact hw, hraw⟩)

/-- A listing reaches the end of the inbox. -/
theorem Keeping.listed (h : Keeping d s) {cursor : Option Json}
    (hw : (s.workers w).point = .listing mb cursor) :
    KeptTo d s mb ((d.adapter mb).listNewMessages (s.inbox mb)
        (cursorValue cursor)).2
      ((d.adapter mb).listNewMessages (s.inbox mb)
        (cursorValue cursor)).1 := by
  have hpoint := h.points w
  rw [hw] at hpoint
  obtain ⟨hle, hkept⟩ := hpoint
  unfold KeptTo
  rw [(d.adapter mb).advances, Nat.max_eq_right hle, List.take_length]
  refine ⟨Nat.le_refl _, fun raw hraw => ?_⟩
  rw [(d.adapter mb).lists]
  rw [← List.take_append_drop ((d.adapter mb).position
    (cursorValue cursor)) (s.inbox mb), List.mem_append] at hraw
  rcases hraw with hread | hnew
  · exact (hkept raw hread).elim (fun h => absurd h List.not_mem_nil) .inr
  · exact .inl hnew

/-- The cursor of a poll is committed: what it has listed is in its
hands. -/
theorem Keeping.commitCursor (h : Keeping d s)
    (hstep : commitCursor s w = some s') : Keeping d s' := by
  unfold Polling.commitCursor at hstep
  cases hw : (s.workers w).point with
  | listed mb cursor messages newCursor =>
      simp only [hw] at hstep
      injection hstep with hstep
      have hholds : ¬ (s.workers w).point.Holds := by
        rw [hw]
        exact id
      have htask : ∀ message : TaskMessage,
          message.At s.db (s.workers w).point →
          message.At s.db (.enqueuing mb messages) := by
        intro message hat
        rw [hw] at hat
        exact hat.poll fun _ _ => id
      by_cases hsame : cursor = some newCursor
      · rw [if_pos hsame] at hstep
        subst hstep
        exact h.moveTo hholds trivial htask
      · rw [if_neg hsame] at hstep
        subst hstep
        have hmoved : Keeping d (s.moveTo w (.enqueuing mb messages)) :=
          h.moveTo hholds trivial htask
        have hg := grows_moveTo hholds (.enqueuing mb messages)
        have hpoint := h.points w
        rw [hw] at hpoint
        obtain ⟨hle, hkept⟩ := hpoint
        refine hmoved.move (w := w) ⟨fun _ h => h, List.prefix_rfl,
          fun _ => List.prefix_rfl, fun _ _ h => h⟩ (fun _ _ => rfl)
          (fun mb' => ?_) (by rw [moveTo_self]; trivial) (hmoved.tasks w)
          fun _ hk => .inl hk
        by_cases hmb : mb' = mb
        · subst hmb
          refine .inr ?_
          show KeptTo d _ mb' (cursorValue (Function.update s.cursor mb'
            (some newCursor) mb')) []
          rw [Function.update_self]
          refine ⟨hle, fun raw hraw => .inr ?_⟩
          rcases hkept raw hraw with hlisted | hkept
          · exact .inr (.inr ⟨w, messages, moveTo_self _, hlisted⟩)
          · exact hg.kept mb' raw hkept
        · exact .inl (Function.update_of_ne hmb ..)
  | _ => simp [hw] at hstep

/-- One message of a poll is enqueued. -/
theorem Keeping.enqueue (h : Keeping d s)
    (hstep : enqueue s w = some s') : Keeping d s' := by
  unfold Polling.enqueue at hstep
  cases hw : (s.workers w).point with
  | enqueuing mb messages =>
      cases messages with
      | nil =>
          simp only [hw] at hstep
          cases hstep
          refine h.ended (by rw [hw]; exact fun hne => hne rfl) ?_
          intro mb' id hat
          rw [hw] at hat
          exact hat.elim
      | cons raw rest =>
          simp only [hw] at hstep
          cases hstep
          have hg : Grows s ({ s with
              sent := s.sent ++
                [TaskMessage.ingestMessage mb raw.providerMessageId]
              }.moveTo w (.enqueuing mb rest)) := by
            refine grows_of_move (w := w) (fun _ h => h)
              (List.prefix_append _ _) (fun _ => List.prefix_rfl)
              (fun _ h => .inl h) (fun v hv => moveTo_of_ne hv _) ?_
            intro mb' messages hw' raw' hraw'
            rw [hw] at hw'
            injection hw' with hmb hmessages
            subst hmb
            subst hmessages
            rcases List.mem_cons.mp hraw' with rfl | hrest
            · refine .inr (.inl ⟨s.sent.length, fun hk => ?_, ?_⟩)
              · exact Nat.lt_irrefl _ (h.acked _ hk)
              · exact List.getElem?_concat_length
            · exact .inr (.inr ⟨w, rest, moveTo_self _, hrest⟩)
          refine h.move hg (fun v hv => moveTo_of_ne hv _)
            (fun _ => .inl rfl) (by rw [moveTo_self]; trivial) ?_
            fun _ hk => .inl hk
          intro k hk
          rw [moveTo_message] at hk
          obtain ⟨message, hsent, hat⟩ := (h.tasks w).grow hg k hk
          refine ⟨message, hsent, ?_⟩
          rw [moveTo_self]
          rw [hw] at hat
          exact hat.poll fun _ _ => id
  | _ => simp [hw] at hstep

/-- The item of a message is committed. -/
theorem Keeping.commitItem (h : Keeping d s) {itemId jobId : Uuid}
    {ids : List Uuid} (hstep : commitItem s w itemId jobId ids = some s')
    (hno : ¬ Drops d (.upsert w itemId jobId ids) s) : Keeping d s' := by
  unfold Polling.commitItem at hstep
  unfold Drops at hno
  cases hw : (s.workers w).point with
  | fetched mb owner raw =>
      simp only [hw] at hstep hno
      cases hdb : LegalBot.upsert s.db s.now (mappedItem raw) owner itemId
          jobId ids with
      | error e => exact absurd ⟨e, hdb⟩ hno
      | ok db =>
          simp only [hdb] at hstep
          cases hstep
          obtain ⟨hitems, hitem⟩ := upsert_items hdb
          have hg : Grows s ({ s with db := db }.moveTo w .ended) := by
            refine grows_of_move (w := w) hitems List.prefix_rfl
              (fun _ => List.prefix_rfl) (fun _ h => .inl h)
              (fun v hv => moveTo_of_ne hv _) ?_
            intro mb' messages hw'
            rw [hw] at hw'
            cases hw'
          refine h.move hg (fun v hv => moveTo_of_ne hv _)
            (fun _ => .inl rfl) (by rw [moveTo_self]; trivial) ?_
            fun _ hk => .inl hk
          intro k hk
          rw [moveTo_message] at hk
          obtain ⟨message, hsent, hat⟩ := h.tasks w k hk
          refine ⟨message, hsent, ?_⟩
          rw [moveTo_self]
          rw [hw] at hat
          cases message with
          | pollMailbox mb => trivial
          | ingestMessage mb id =>
              have hid : raw.providerMessageId = id := hat
              exact hid ▸ hitem
  | _ => simp [hw] at hstep

/-- A worker takes a task or is through with one. -/
theorem Keeping.setWorker (h : Keeping d s) {worker : Worker}
    {acked : Finset Nat} (hholds : ¬ (s.workers w).point.Holds)
    (hpoint : worker.point.Keeps d s) (htask : worker.Tasked s)
    (hacked : ∀ k ∈ acked, k ∈ s.acked ∨ k < s.sent.length ∧ ∀ mb id,
      s.sent[k]? = some (.ingestMessage mb id) → ItemOf s.db id) :
    Keeping d { s with
      acked := acked
      workers := Function.update s.workers w worker } := by
  have hg : Grows s { s with
      acked := acked
      workers := Function.update s.workers w worker } := by
    refine grows_of_move (w := w) (fun _ h => h) List.prefix_rfl
      (fun _ => List.prefix_rfl)
      (fun k hk => (hacked k hk).imp_right And.right)
      (fun v hv => Function.update_of_ne hv ..) ?_
    intro mb rest hw raw hraw
    refine absurd ?_ hholds
    rw [hw]
    exact List.ne_nil_of_mem hraw
  refine h.move (w := w) hg (fun v hv => Function.update_of_ne hv ..)
    (fun _ => .inl rfl) ?_ ?_ fun k hk => (hacked k hk).imp_right And.left
  · show Point.Keeps d _ (Function.update s.workers w worker w).point
    rw [Function.update_self]
    exact hpoint.grow hg
  · show Worker.Tasked _ (Function.update s.workers w worker w)
    rw [Function.update_self]
    exact htask.grow hg

/-- A message is delivered to its task. -/
theorem Keeping.deliver (h : Keeping d s) {k : Nat}
    (hstep : step d (.deliver w k) s = some s') : Keeping d s' := by
  unfold step at hstep
  cases hw : (s.workers w).point with
  | idle =>
      simp only [hw] at hstep
      split at hstep
      · cases hstep
      obtain ⟨message, hk, rfl⟩ := Option.map_eq_some_iff.mp hstep
      refine h.setWorker (by rw [hw]; exact id) ?_ ?_ fun _ hk => .inl hk
      · cases message with
        | pollMailbox mb => trivial
        | ingestMessage mb id => trivial
      · intro k' hk'
        injection hk' with hk'
        subst hk'
        refine ⟨message, hk, ?_⟩
        cases message with
        | pollMailbox mb => trivial
        | ingestMessage mb id => rfl
  | _ => simp [hw] at hstep

/-- A poll reads its cursor. -/
theorem Keeping.readMailbox (h : Keeping d s)
    (hstep : readMailbox d s w = some s') : Keeping d s' := by
  unfold Polling.readMailbox at hstep
  cases hw : (s.workers w).point with
  | poll mb =>
      have hholds : ¬ (s.workers w).point.Holds := by
        rw [hw]
        exact id
      simp only [hw] at hstep
      split at hstep
      · cases hstep
        refine h.moveTo hholds (h.cursors mb) fun message hat => ?_
        rw [hw] at hat
        exact hat.poll fun _ _ => id
      · cases hstep
        refine h.ended hholds fun mb' id hat => ?_
        rw [hw] at hat
        exact hat.elim
  | _ => simp [hw] at hstep

/-- A poll lists what is new. -/
theorem Keeping.listMessages (h : Keeping d s)
    (hstep : listMessages d s w = some s') : Keeping d s' := by
  unfold Polling.listMessages at hstep
  cases hw : (s.workers w).point with
  | listing mb cursor =>
      simp only [hw] at hstep
      cases hstep
      refine h.moveTo (by rw [hw]; exact id) (h.listed hw)
        fun message hat => ?_
      rw [hw] at hat
      exact hat.poll fun _ _ => id
  | _ => simp [hw] at hstep

/-- A message is fetched for a mailbox that is there. -/
theorem Keeping.fetch (h : Keeping d s) (hstep : fetch d s w raw = some s')
    (hno : ¬ Drops d (.fetch w raw) s) : Keeping d s' := by
  unfold Polling.fetch at hstep
  unfold Drops at hno
  cases hw : (s.workers w).point with
  | ingest mb id =>
      simp only [hw] at hstep hno
      cases howner : d.owner mb with
      | none => exact absurd howner hno
      | some owner =>
          simp only [howner] at hstep
          split at hstep
          · rename_i hid
            cases hstep
            refine h.moveTo (by rw [hw]; exact fun h => h) trivial
              fun message hat => ?_
            rw [hw] at hat
            cases message with
            | pollMailbox mb => trivial
            | ingestMessage mb id' => exact hid.trans hat
          · cases hstep
  | _ => simp [hw] at hstep

/-- A task raises that has nothing left to enqueue or to ingest. -/
theorem Keeping.raise (h : Keeping d s)
    (hstep : step d (.raise w) s = some s')
    (hno : ¬ Drops d (.raise w) s) : Keeping d s' := by
  unfold step at hstep
  unfold Drops at hno
  have hended : ∀ point, (s.workers w).point = point → ¬ point.Holds →
      (∀ mb id, (TaskMessage.ingestMessage mb id).At s.db point →
        ItemOf s.db id) → Keeping d (s.moveTo w .ended) := by
    rintro point rfl hholds hitem
    exact h.ended hholds hitem
  cases hw : (s.workers w).point with
  | idle => simp [hw] at hstep
  | ingest mb id => simp [hw] at hno
  | fetched mb owner raw => simp [hw] at hno
  | ended =>
      simp only [hw] at hstep
      cases hstep
      exact hended _ hw id fun _ _ hat => hat
  | enqueuing mb rest =>
      simp only [hw] at hstep hno
      cases hstep
      exact hended _ hw hno fun _ _ hat => hat.elim
  | _ =>
      simp only [hw] at hstep
      cases hstep
      exact hended _ hw id fun _ _ hat => hat.elim

/-- A task that is over acknowledges its message. -/
theorem Keeping.acknowledge (h : Keeping d s)
    (hstep : step d (.acknowledge w) s = some s') : Keeping d s' := by
  unfold step at hstep
  simp only at hstep
  split at hstep
  · rename_i k hw hk
    cases hstep
    obtain ⟨message, hsent, hat⟩ := h.tasks w k hk
    rw [hw] at hat
    refine h.setWorker (by rw [hw]; exact id) trivial
      (fun _ hk => by cases hk) fun k' hk' => ?_
    rcases Finset.mem_insert.mp hk' with rfl | hold
    · refine .inr ⟨(List.getElem?_eq_some_iff.mp hsent).1,
        fun mb id hmessage => ?_⟩
      rw [hsent] at hmessage
      cases hmessage
      exact hat
    · exact .inl hold
  · cases hstep

/-- A step that drops nothing keeps everything. -/
theorem step_keeping (h : Keeping d s) (hno : ¬ Drops d a s)
    (hstep : step d a s = some s') : Keeping d s' := by
  cases a with
  | tick seconds =>
      cases hstep
      exact h.stay (grows_of_stay rfl List.prefix_rfl
        (fun _ => List.prefix_rfl) rfl rfl) rfl rfl rfl
  | arrive mb raw =>
      cases hstep
      exact h.stay (grows_of_stay rfl List.prefix_rfl
        (inbox_arrive s mb raw) rfl rfl) rfl rfl rfl
  | schedule mb =>
      cases hstep
      exact h.stay (grows_of_stay rfl (List.prefix_append _ _)
        (fun _ => List.prefix_rfl) rfl rfl) rfl rfl rfl
  | deliver w k => exact h.deliver hstep
  | readMailbox w => exact h.readMailbox hstep
  | listMessages w => exact h.listMessages hstep
  | commitCursor w => exact h.commitCursor hstep
  | enqueue w => exact h.enqueue hstep
  | fetch w raw => exact h.fetch hstep hno
  | upsert w itemId jobId ids => exact h.commitItem hstep hno
  | raise w => exact h.raise hstep hno
  | acknowledge w => exact h.acknowledge hstep
  | crash w =>
      cases hstep
      exact h.setWorker hno trivial (fun _ hk => by cases hk)
        fun _ hk => .inl hk

-- ============================================================== the result

/-- In every run whose steps drop nothing, each message at or before the
cursor of its mailbox has an item, a task, or a poll that holds it. -/
theorem kept_until_dropped
    (h : Reachable (step d) (fun a s => ¬ Drops d a s) State.init s) :
    ∀ mb, ∀ raw ∈ polled d s mb, Kept s mb raw := by
  have hkeeping : Keeping d s := h.invariant init_keeping
    fun _ _ _ _ hk hno hstep => step_keeping hk hno hstep
  intro mb raw hraw
  exact ((hkeeping.cursors mb).2 raw hraw).resolve_left List.not_mem_nil

end LegalBot.Polling
