/-
One-shot schedules and how often they take effect.

The worker reads the status at the start of a delivery and expires the
row at its end. Between the two nothing tells another delivery that this
one is under way, and between the commit of a handler and the commit
that expires the row nothing tells a redelivery that it has been there.

`Spaced` is the absence of both: a one-shot is not found active while
another worker fires it, no worker is lost between the effect of its
handler and the expiry, and (as in `Proofs/FinalSchedules.lean`) no
finished row is paused or resumed.

# The invariant

`Once` says where the effects of a row stand: there is none yet, or one,
and then the row is finished or a worker is about to expire it. It needs
`Placed`: a handler commits once, since its actor has left the service
call when its transaction is over.
-/
import LegalBot.Proofs.FinalSchedules

namespace LegalBot.Firing

open Relational (HasKey Table)

-- ============================================================== statements

/-- How often a row's handler took effect: what it committed, or the
poll it published. -/
def effects (s : State) (k : Uuid) : Nat := s.log.count (.effect k)

/-- A worker has found the row active and is firing it. -/
def Engaged (s : State) (tid : Nat) (k : Uuid) : Prop :=
  ∃ row, (s.fires tid).point.row = some row ∧ row.id = k

/-- A one-shot row. -/
def OneShot (t : Table ScheduledJob) (k : Uuid) : Prop :=
  ∃ row, t.get k = some row ∧ row.scheduleKind = .oneShot

/-- One delivery after the other fires a one-shot, and none is lost
before it has expired the row. -/
structure Spaced (env : Env) (a : Action) (s : State) : Prop where
  kept : ∀ k st, (k, st) ∈ s.writes env a → isFinal st = false →
    ¬ Finished s.schedules k
  alone : ∀ tid row, a = .check tid →
    (s.fires tid).point = .received row.id →
    s.schedules.get row.id = some row → row.status = .active →
    row.scheduleKind = .oneShot → ∀ t, ¬ Engaged s t row.id
  completes : ∀ tid row, a = .fail tid ∨ a = .crash tid →
    (s.fires tid).point = .calling row true → row.scheduleKind ≠ .oneShot

-- ========================================================= the handler's call

section Calls

/-- Where the actor of a worker is while the worker waits for its call;
`done`: the call has committed. -/
def inCall (done : Bool) : Pc → Bool
  | .handler (.publish _) | .handler .done | .worker .done => true
  | .handler (.reminder ..) | .handler (.reminderInsert ..)
  | .handler (.replay ..) | .handler (.replayInsert ..) => !done
  | _ => false

/-- The actor of a worker is where the worker expects it. -/
def Placed (pc : Pc) : Point → Prop
  | .idle => True
  | .calling _ done => inCall done pc = true
  | .received _ | .checked _ | .polling _ _ => pc.isIdle = true

theorem inCall_of_idle {pc : Pc} (h : pc.isIdle = true) (done : Bool) :
    inCall done pc = true := by
  cases pc with
  | handler hd =>
      cases hd with
      | done => rfl
      | _ => cases h
  | worker w =>
      cases w with
      | done => rfl
      | _ => cases h

/-- An actor that is done asks for nothing. -/
theorem request_of_idle {env : Env} {s : LegalBot.State} {t : Nat}
    {reply : Reply} (h : (s.tasks t).pc.isIdle = true) :
    s.request env t reply = none := by
  unfold LegalBot.State.request
  cases hpc : (s.tasks t).pc with
  | handler hd =>
      rw [hpc] at h
      cases hd with
      | done => rfl
      | _ => cases h
  | worker w =>
      rw [hpc] at h
      cases w with
      | done => rfl
      | _ => cases h

/-- A request for a transaction. -/
def isCommit : Request Pc → Bool
  | .commit .. => true
  | _ => false

/-- A call goes on until it commits, once, and then has only to
publish. -/
theorem inCall_request {env : Env} {now : Time} {db : Db}
    {inFlight : Finset Uuid} {reply : Reply} {pc : Pc} {done : Bool}
    {r : Request Pc} (hin : inCall done pc = true)
    (h : pc.request env now db inFlight reply = some r) :
    (isCommit r = false
        ∧ ∀ run, inCall done (r.landing run) = true)
      ∨ ∃ tx ok raised, r = .commit tx ok raised ∧ done = false
        ∧ inCall true ok = true := by
  cases pc with
  | worker w =>
      cases w with
      | done => cases h
      | _ => cases hin
  | handler hd =>
      obtain ⟨r₀, hr₀, rfl⟩ := Option.map_eq_some_iff.mp h
      cases hd with
      | done => cases hr₀
      | publish message =>
          refine Or.inl ?_
          cases reply with
          | ok =>
              cases hr₀
              exact ⟨rfl, fun _ => rfl⟩
          | raised e =>
              cases hr₀
              exact ⟨rfl, fun _ => rfl⟩
          | _ => cases hr₀
      | reminder sid message wake payload =>
          cases hr₀
          exact Or.inl ⟨rfl, fun _ => hin⟩
      | reminderInsert sid message wake payload index =>
          simp only [Handler.request] at hr₀
          split at hr₀
          · cases hr₀
            refine Or.inr ⟨_, _, _, rfl, by simpa [inCall] using hin, ?_⟩
            cases wake with
            | true => rfl
            | false => rfl
          · cases hr₀
      | replay sid rid step context =>
          simp only [Handler.request] at hr₀
          split at hr₀
          · cases hr₀
            exact Or.inl ⟨rfl, fun _ => hin⟩
          · cases hr₀
            exact Or.inl ⟨rfl, fun _ => rfl⟩
          · cases hr₀
      | replayInsert sid rid step context cp =>
          simp only [Handler.request] at hr₀
          split at hr₀
          · cases hr₀
            exact Or.inr ⟨_, _, _, rfl, by simpa [inCall] using hin, rfl⟩
          · cases hr₀
      | _ => cases hin

/-- The actor of a worker after a step of the inner system with which it
ran no transaction. -/
theorem placed_inner {env : Env} {s : State} {b : Replays.Action}
    {inner : Replays.State} {t : Nat}
    (hp : Placed (s.inner.base.tasks t).pc (s.fires t).point)
    (hadmits : s.admits b = true)
    (h : Replays.apply env b s.inner = some inner)
    (hc : s.calls env b = none) :
    Placed (inner.base.tasks t).pc (s.fires t).point := by
  by_cases hb : ∃ b₀, b = .base b₀
  · obtain ⟨b₀, rfl⟩ := hb
    obtain ⟨-, hbase, -⟩ := Replays.apply_base h
    by_cases hactor : b₀.actor = some t
    · have hrest : s.resting t = true →
          Placed (inner.base.tasks t).pc (s.fires t).point := by
        intro hrest
        have hidle : (s.fires t).point = .idle := of_decide_eq_true hrest
        rw [hidle]
        trivial
      cases b₀ with
      | tick d => cases hactor
      | start tid entry =>
          cases hactor
          refine hrest ?_
          unfold State.admits at hadmits
          simp only at hadmits
          split at hadmits
          · cases hadmits
          · exact hadmits
      | deliver tid mid =>
          cases hactor
          exact hrest hadmits
      | crash tid =>
          cases hactor
          exact hrest hadmits
      | advance tid reply =>
          cases hactor
          obtain ⟨r, hr, hperform⟩ := Option.map_eq_some_iff.mp hbase
          have hbusy : (s.inner.base.tasks t).pc.isIdle = false := by
            cases hidle : (s.inner.base.tasks t).pc.isIdle with
            | false => rfl
            | true =>
                rw [request_of_idle hidle] at hr
                cases hr
          cases hpoint : (s.fires t).point with
          | idle => trivial
          | received id | checked row | polling row m =>
              rw [hpoint] at hp
              exact absurd hp (by simp [Placed, hbusy])
          | calling row done =>
              rw [hpoint] at hp
              rw [← hperform, perform_pc]
              rcases inCall_request hp hr with
                ⟨-, hland⟩ | ⟨tx, ok, raised, rfl, -, -⟩
              · exact hland _
              · -- it would have run a transaction for the worker
                simp [State.calls, hpoint, committing, hr] at hc
    · rw [apply_other hbase hactor]
      exact hp
  · obtain ⟨hbase, -⟩ :=
      Replays.apply_tables h fun b₀ hab => hb ⟨b₀, hab⟩
    rw [hbase]
    exact hp

/-- The actor of a worker whose call has run its transaction. -/
theorem placed_called {env : Env} {s : State} {b : Replays.Action}
    {inner : Replays.State} {tid t : Nat} {row : ScheduledJob} {tx : Tx}
    {ok : Bool} (hp : ∀ t, Placed (s.inner.base.tasks t).pc (s.fires t).point)
    (h : Replays.apply env b s.inner = some inner)
    (hc : s.calls env b = some (tid, row, tx, ok)) :
    Placed (inner.base.tasks t).pc
      (({ s with inner := inner }.called tid row tx ok).fires t).point := by
  obtain ⟨reply, done, rfl, hpoint, htx, rfl⟩ := calls_some hc
  obtain ⟨-, hbase, -⟩ := Replays.apply_base h
  by_cases ht : t = tid
  · subst ht
    rcases called_fires_self (s := { s with inner := inner }) t row tx _ with
      ⟨heq, -⟩ | ⟨hok, heq⟩
    · rw [heq]
      trivial
    · rw [heq]
      obtain ⟨r, hr, hperform⟩ := Option.map_eq_some_iff.mp hbase
      have hin := hp t
      rw [hpoint] at hin
      unfold committing at htx
      simp only [hr] at htx
      rcases inCall_request hin hr with
        ⟨hno, -⟩ | ⟨tx', okPc, raised, rfl, -, hdone⟩
      · cases r with
        | commit => cases hno
        | _ => cases htx
      · cases htx
        rw [← hperform, perform_pc]
        cases hcommit : tx.commit env.cfg s.inner.base.now
            s.inner.base.db with
        | ok db =>
            have hland : (Request.commit tx okPc raised).landing
                (Tx.commit env.cfg s.inner.base.now s.inner.base.db)
                = okPc := by
              simp only [Request.landing, hcommit]
            rw [hland]
            exact hdone
        | error e =>
            rw [hcommit] at hok
            cases hok
  · rw [called_fires_other _ _ _ ht]
    have hactor : (LegalBot.Action.advance tid reply).actor ≠ some t :=
      fun he => ht (Option.some.inj he).symm
    rw [apply_other hbase hactor]
    exact hp t

/-- Stopping an actor leaves the others where they are. -/
theorem placed_stopped {env : Env} {s : State} {inner : Replays.State}
    {tid t : Nat} (ht : t ≠ tid)
    (hp : Placed (s.inner.base.tasks t).pc (s.fires t).point)
    (h : Replays.apply env (.base (.crash tid)) s.inner = some inner) :
    Placed (inner.base.tasks t).pc (s.fires t).point := by
  obtain ⟨-, hbase, -⟩ := Replays.apply_base h
  have hactor : (LegalBot.Action.crash tid).actor ≠ some t :=
    fun he => ht (Option.some.inj he).symm
  rw [apply_other hbase hactor]
  exact hp

/-- Every worker's actor is where it is expected, after every step. -/
theorem placed_step {env : Env} {a : Action} {s s' : State}
    (hp : ∀ t, Placed (s.inner.base.tasks t).pc (s.fires t).point)
    (h : apply env a s = some s') (t : Nat) :
    Placed (s'.inner.base.tasks t).pc (s'.fires t).point := by
  have hgoto : ∀ {tid : Nat} {point : Point} {s₁ : State},
      s₁.inner = s.inner → s₁.fires = s.fires →
      Placed (s.inner.base.tasks tid).pc point →
      Placed ((s₁.goto tid point).inner.base.tasks t).pc
        ((s₁.goto tid point).fires t).point := by
    intro tid point s₁ hinner hfires hnew
    rw [goto_inner, hinner]
    by_cases ht : t = tid
    · subst ht
      rw [goto_fires_self]
      exact hnew
    · rw [goto_fires_other _ ht, hfires]
      exact hp t
  have hends : ∀ {tid : Nat} {s₁ : State}, s₁.inner = s.inner →
      s₁.fires = s.fires → Placed ((s₁.ends tid).inner.base.tasks t).pc
        ((s₁.ends tid).fires t).point := by
    intro tid s₁ hinner hfires
    rw [ends_inner, hinner]
    by_cases ht : t = tid
    · subst ht
      rw [ends_fires_self]
      trivial
    · rw [ends_fires_other ht, hfires]
      exact hp t
  have hidle : ∀ {tid : Nat} {row : ScheduledJob},
      (s.fires tid).point = .checked row →
      (s.inner.base.tasks tid).pc.isIdle = true := by
    intro tid row hpoint
    have hpl := hp tid
    rw [hpoint] at hpl
    exact hpl
  have hpolling : ∀ {tid : Nat} {row : ScheduledJob} {m : Uuid},
      (s.fires tid).point = .polling row m →
      (s.inner.base.tasks tid).pc.isIdle = true := by
    intro tid row m hpoint
    have hpl := hp tid
    rw [hpoint] at hpl
    exact hpl
  cases apply_moved h with
  | inner hadmits hinner hc =>
      have hpl := placed_inner (hp t) hadmits hinner hc
      exact hpl
  | called hinner hc =>
      have hpl := placed_called (t := t) hp hinner hc
      rw [(called_inner _ _ _ _).1]
      exact hpl
  | outside => exact hp t
  | @delivered tid mid id hpoint hfree =>
      by_cases ht : t = tid
      · subst ht
        simp only [Function.update_self]
        exact hfree
      · simp only [Function.update_of_ne ht]
        exact hp t
  | skipped => exact hends rfl rfl
  | rejected => exact hends rfl rfl
  | @checked tid row hpoint =>
      have hpl := hp tid
      rw [hpoint] at hpl
      exact hgoto rfl rfl hpl
  | polling m hpoint => exact hgoto rfl rfl (hidle hpoint)
  | @calling tid row inner hpoint hor =>
      rcases hor with rfl | ⟨entry, hentry, hinner⟩
      · exact hgoto rfl rfl (inCall_of_idle (hidle hpoint) _)
      · obtain ⟨-, hbase, -⟩ := Replays.apply_base hinner
        by_cases ht : t = tid
        · subst ht
          rw [goto_fires_self, goto_inner]
          unfold LegalBot.apply at hbase
          simp only at hbase
          split at hbase
          · injection hbase with hbase
            rw [← hbase]
            simp only [Function.update_self]
            cases entry with
            | reminder | replay => rfl
            | _ => cases hentry
          · cases hbase
        · rw [goto_fires_other _ ht, goto_inner]
          have hactor : (LegalBot.Action.start tid entry).actor ≠ some t :=
            fun he => ht (Option.some.inj he).symm
          simp only
          rw [apply_other hbase hactor]
          exact hp t
  | published hpoint =>
      exact hgoto rfl rfl (inCall_of_idle (hpolling hpoint) _)
  | unpublished hpoint =>
      exact hgoto rfl rfl (inCall_of_idle (hpolling hpoint) _)
  | @finished tid row done hpoint =>
      by_cases ht : t = tid
      · subst ht
        rw [fired_fires_self]
        trivial
      · rw [fired_fires_other row ht]
        exact hp t
  | @failed tid inner hinner =>
      by_cases ht : t = tid
      · subst ht
        rw [ends_fires_self]
        trivial
      · have hpl := placed_stopped ht (hp t) hinner
        rw [ends_fires_other ht]
        exact hpl
  | @crashed tid inner hinner =>
      by_cases ht : t = tid
      · subst ht
        simp only [Function.update_self]
        trivial
      · have hpl := placed_stopped ht (hp t) hinner
        simp only [Function.update_of_ne ht]
        exact hpl

/-- A call that runs a transaction has run none before. -/
theorem calls_undone {env : Env} {s : State} {b : Replays.Action}
    {tid : Nat} {row : ScheduledJob} {tx : Tx} {ok : Bool}
    (hp : ∀ t, Placed (s.inner.base.tasks t).pc (s.fires t).point)
    (hc : s.calls env b = some (tid, row, tx, ok)) :
    (s.fires tid).point = .calling row false := by
  obtain ⟨reply, done, rfl, hpoint, htx, -⟩ := calls_some hc
  have hin := hp tid
  rw [hpoint] at hin
  unfold committing at htx
  simp only at htx
  split at htx
  · rename_i tx' ok raised hr
    rcases inCall_request hin hr with
      ⟨hno, -⟩ | ⟨_, _, _, -, hdone, -⟩
    · cases hno
    · rw [hpoint, hdone]
  · cases htx

end Calls

-- =========================================================== the invariant

section Step

variable {env : Env} {a : Action} {s s' : State} {k : Uuid}

/-- The handler has taken effect, and the worker is about to expire the
row. -/
def Done (s : State) (tid : Nat) (k : Uuid) : Prop :=
  ∃ row, (s.fires tid).point = .calling row true ∧ row.id = k

/-- Where the effects of a one-shot stand. -/
structure Once (s : State) (k : Uuid) : Prop where
  alone : ∀ {t t'}, Engaged s t k → Engaged s t' k → t = t'
  pending : ∀ {t}, Engaged s t k → ¬ Done s t k → effects s k = 0
  counted : effects s k = 0 ∨ (effects s k = 1
    ∧ (Finished s.schedules k ∨ ∃ t, Done s t k))

/-- What the steps keep. -/
structure Counts (s : State) : Prop where
  placed : ∀ t, Placed (s.inner.base.tasks t).pc (s.fires t).point
  agrees : ∀ {t row}, (s.fires t).point.row = some row →
    ∃ row', s.schedules.get row.id = some row' ∧ SameSchedule row row'
  unborn : ∀ {k}, s.schedules.get k = none → effects s k = 0
  once : ∀ {k}, OneShot s.schedules k → Once s k

theorem Done.engaged {t : Nat} (h : Done s t k) : Engaged s t k := by
  obtain ⟨row, hpoint, hid⟩ := h
  exact ⟨row, by rw [hpoint]; rfl, hid⟩

/-- The effects after a step. -/
theorem effects_step (hstep : apply env a s = some s') (k : Uuid) :
    (.effect k ∈ s.events env a ∧ effects s' k = effects s k + 1)
      ∨ (.effect k ∉ s.events env a ∧ effects s' k = effects s k) := by
  unfold effects
  rw [apply_log hstep, List.count_append]
  by_cases hmem : Event.effect k ∈ s.events env a
  · have hpos := List.count_pos_iff.mpr hmem
    have hone : (s.events env a).count (.effect k) ≤ 1 := events_count _
    exact Or.inl ⟨hmem, by omega⟩
  · rw [List.count_eq_zero.mpr hmem]
    exact Or.inr ⟨hmem, by omega⟩

/-- What a worker fires keeps its schedule. -/
theorem Counts.oneShot (hs : Counts s) {t : Nat} {row : ScheduledJob}
    (hrow : (s.fires t).point.row = some row)
    (hone : OneShot s.schedules row.id) : row.scheduleKind = .oneShot := by
  obtain ⟨row', hget, hsame⟩ := hs.agrees hrow
  obtain ⟨row₀, hget₀, hkind⟩ := hone
  rw [hget] at hget₀
  cases hget₀
  rw [hsame] at hkind
  exact hkind

/-- A one-shot that a step expires is finished. -/
theorem finished_of_fired (hstep : apply env a s = some s')
    {row : ScheduledJob} (hone : OneShot s.schedules row.id)
    (hkind : row.scheduleKind = .oneShot)
    (hw : ∀ w ∈ firedWrites row, w ∈ s.writes env a)
    (hnot : ∀ k, a ≠ .inner (.pause k) ∧ a ≠ .inner (.resume k)) :
    Finished s'.schedules row.id := by
  have hmem : (row.id, ScheduledJobStatus.expired) ∈ s.writes env a := by
    refine hw _ ?_
    unfold firedWrites
    rw [if_pos hkind]
    exact List.mem_singleton_self _
  obtain ⟨row₀, hget, -⟩ := hone
  obtain ⟨row', hget', -, ⟨-, hnone⟩ | hwritten⟩ :=
    apply_row_kept hstep hget
  · exact absurd hmem (hnone _)
  · refine ⟨row', hget', ?_⟩
    rcases written hwritten with ⟨-, ha⟩ | ⟨-, ha⟩ | hst | hst
    · exact absurd ha (hnot _).1
    · exact absurd ha (hnot _).2
    · rw [hst]
      rfl
    · rw [hst]
      rfl

/-- A worker with an effect behind it keeps it in mind until it expires
the row, if it is not lost. -/
theorem Done.step (hs : Counts s) (hstep : apply env a s = some s')
    {t : Nat} (h : Done s t k) :
    Done s' t k ∨ (∃ row, a = .finish t
        ∧ (s.fires t).point = .calling row true ∧ row.id = k)
      ∨ a = .fail t ∨ a = .crash t := by
  obtain ⟨row, hpoint, hid⟩ := h
  rcases apply_point hstep t with heq | hmove
  · exact Or.inl ⟨row, heq ▸ hpoint, hid⟩
  · generalize (s'.fires t).point = point' at hmove
    cases hmove with
    | finished ha hp => exact Or.inr (Or.inl ⟨row, ha, hpoint, hid⟩)
    | stopped ha => exact Or.inr (Or.inr ha)
    | committed _ hc | ended _ hc =>
        rw [calls_undone hs.placed hc] at hpoint
        cases hpoint
    | received _ hp | skipped _ hp | checked _ hp | rejected _ hp
    | polling _ _ hp | calling _ hp | published _ hp
    | unpublished _ hp =>
        rw [hp] at hpoint
        cases hpoint

/-- The effect of a step is the first, of a worker that is then done or
has expired the row. -/
theorem effect_step (hs : Counts s) (hstep : apply env a s = some s')
    (hone : OneShot s.schedules k) (he : .effect k ∈ s.events env a) :
    effects s k = 0 ∧ ∃ t, Engaged s t k
      ∧ (Done s' t k ∨ (¬ Engaged s' t k ∧ Finished s'.schedules k)) := by
  obtain ⟨t, row, rfl, hcase⟩ := effect_logged he
  have hundone : (∃ m, (s.fires t).point = .polling row m)
      ∨ (s.fires t).point = .calling row false := by
    rcases hcase with ⟨-, hpoint⟩ | ⟨b, tx, -, hc⟩
    · exact Or.inl hpoint
    · exact Or.inr (calls_undone hs.placed hc)
  have hrow : (s.fires t).point.row = some row := by
    rcases hundone with ⟨m, hpoint⟩ | hpoint
    · rw [hpoint]
      rfl
    · rw [hpoint]
      rfl
  have hpending : effects s row.id = 0 := by
    refine (hs.once hone).pending ⟨row, hrow, rfl⟩ ?_
    rintro ⟨row', hpoint', -⟩
    rcases hundone with ⟨m, hpoint⟩ | hpoint
    · rw [hpoint] at hpoint'
      cases hpoint'
    · rw [hpoint] at hpoint'
      cases hpoint'
  refine ⟨hpending, t, ⟨row, hrow, rfl⟩, ?_⟩
  rcases hcase with ⟨rfl, m, hpoint⟩ | ⟨b, tx, rfl, hc⟩
  · refine Or.inl ⟨row, ?_, rfl⟩
    cases apply_moved hstep with
    | outside _ _ hout => cases hout
    | published hpoint' =>
        rw [hpoint] at hpoint'
        cases hpoint'
        exact goto_fires_self _ _
  · cases apply_moved hstep with
    | outside _ _ hout => cases hout
    | inner _ _ hc' =>
        rw [hc] at hc'
        cases hc'
    | called hinner hc' =>
        rw [hc] at hc'
        cases hc'
        rcases called_fires_self t row tx true with
          ⟨heq, htask⟩ | ⟨-, heq⟩
        · refine Or.inr ⟨?_, ?_⟩
          · rintro ⟨row', hrow', -⟩
            rw [heq] at hrow'
            cases hrow'
          · refine finished_of_fired hstep hone (hs.oneShot hrow hone)
              (fun w hw => ?_) fun k => ?_
            · simp only [State.writes, hc, htask rfl, if_true]
              exact List.mem_append_right _ hw
            · obtain ⟨_, _, rfl, -⟩ := calls_some hc
              exact ⟨(fun h => by cases h), (fun h => by cases h)⟩
        · exact Or.inl ⟨row, heq, rfl⟩

/-- A delivery that finds a one-shot active is the first. -/
theorem first_check (hs : Counts s) (hg : Spaced env a s)
    (hone : OneShot s.schedules k) {t : Nat} {row : ScheduledJob}
    (ha : a = .check t) (hpoint : (s.fires t).point = .received row.id)
    (hget : s.schedules.get row.id = some row)
    (hactive : row.status = .active) (hid : row.id = k) :
    (∀ t', ¬ Engaged s t' k) ∧ effects s k = 0 := by
  subst hid
  have hkind : row.scheduleKind = .oneShot := by
    obtain ⟨row', hget', hkind⟩ := hone
    rw [hget] at hget'
    cases hget'
    exact hkind
  have halone := hg.alone t row ha hpoint hget hactive hkind
  refine ⟨halone, ?_⟩
  rcases (hs.once hone).counted with hzero | ⟨-, hfin | ⟨t', hdone⟩⟩
  · exact hzero
  · obtain ⟨row', hget', hfinal⟩ := hfin
    rw [hget] at hget'
    cases hget'
    rw [hactive] at hfinal
    cases hfinal
  · exact absurd hdone.engaged (halone t')

/-- A worker that has expired its row is through with it. -/
theorem finish_engaged {t : Nat} (hstep : apply env (.finish t) s = some s') :
    ¬ Engaged s' t k := by
  rintro ⟨row, hrow, -⟩
  cases apply_moved hstep with
  | outside _ _ hout => cases hout
  | finished hpoint =>
      rw [fired_fires_self] at hrow
      cases hrow

/-- One step keeps a one-shot's effects at one. -/
theorem Once.step (hs : Counts s) (hg : Spaced env a s)
    (hstep : apply env a s = some s') (hone : OneShot s.schedules k) :
    Once s' k := by
  have hold := hs.once hone
  have horigin : ∀ {t}, Engaged s' t k → Engaged s t k
      ∨ (a = .check t ∧ (∀ t', ¬ Engaged s t' k) ∧ effects s k = 0) := by
    rintro t ⟨row, hrow, hid⟩
    rcases row_origin hstep hrow with hrow₀ | ⟨ha, hpoint, hget, hactive⟩
    · exact Or.inl ⟨row, hrow₀, hid⟩
    · exact Or.inr ⟨ha,
        first_check hs hg hone ha hpoint hget hactive hid⟩
  have hlost : ∀ {t}, Done s t k → a ≠ .fail t ∧ a ≠ .crash t := by
    rintro t ⟨row, hpoint, rfl⟩
    have hkind := hs.oneShot (by rw [hpoint]; rfl) hone
    exact ⟨fun ha => hg.completes t row (Or.inl ha) hpoint hkind,
      fun ha => hg.completes t row (Or.inr ha) hpoint hkind⟩
  refine ⟨fun {t t'} ht ht' => ?_, fun {t} ht hnot => ?_, ?_⟩
  · rcases horigin ht with h₁ | ⟨ha, hnone, -⟩
    · rcases horigin ht' with h₂ | ⟨-, hnone, -⟩
      · exact hold.alone h₁ h₂
      · exact absurd h₁ (hnone t)
    · rcases horigin ht' with h₂ | ⟨ha', -, -⟩
      · exact absurd h₂ (hnone t')
      · rw [ha] at ha'
        injection ha'
  · rcases effects_step hstep k with ⟨hmem, -⟩ | ⟨-, heq⟩
    · -- the worker of the effect is done, or no longer engaged
      obtain ⟨-, t₀, heng, hafter⟩ := effect_step hs hstep hone hmem
      rcases horigin ht with h₁ | ⟨-, hnone, -⟩
      · cases hold.alone h₁ heng
        rcases hafter with hdone | ⟨hfree, -⟩
        · exact absurd hdone hnot
        · exact absurd ht hfree
      · exact absurd heng (hnone t₀)
    · rw [heq]
      rcases horigin ht with h₁ | ⟨-, -, hzero⟩
      · refine hold.pending h₁ fun hdone => ?_
        rcases hdone.step hs hstep with hd | ⟨_, rfl, -⟩ | ha | ha
        · exact hnot hd
        · exact finish_engaged hstep ht
        · exact (hlost hdone).1 ha
        · exact (hlost hdone).2 ha
      · exact hzero
  · rcases effects_step hstep k with ⟨hmem, heq⟩ | ⟨-, heq⟩
    · obtain ⟨hzero, t, -, hafter⟩ := effect_step hs hstep hone hmem
      rw [heq, hzero]
      rcases hafter with hdone | ⟨-, hfin⟩
      · exact Or.inr ⟨rfl, Or.inr ⟨t, hdone⟩⟩
      · exact Or.inr ⟨rfl, Or.inl hfin⟩
    · rw [heq]
      rcases hold.counted with hzero | ⟨hcount, hfin | ⟨t, hdone⟩⟩
      · exact Or.inl hzero
      · exact Or.inr ⟨hcount, Or.inl (hfin.step (hg.kept k) hstep)⟩
      · refine Or.inr ⟨hcount, ?_⟩
        rcases hdone.step hs hstep with hd | ⟨row, rfl, hpoint, rfl⟩ | ha
        · exact Or.inr ⟨t, hd⟩
        · refine Or.inl (finished_of_fired hstep hone
            (hs.oneShot (by rw [hpoint]; rfl) hone) (fun w hw => ?_)
            fun k => ⟨(fun h => by cases h), (fun h => by cases h)⟩)
          simp only [State.writes, hpoint]
          exact hw
        · rcases ha with ha | ha
          · exact absurd ha (hlost hdone).1
          · exact absurd ha (hlost hdone).2

/-- What is not there takes no effect. -/
theorem effects_unborn (hs : Counts s) (hstep : apply env a s = some s')
    (hnew : s.schedules.get k = none) : effects s' k = effects s k := by
  rcases effects_step hstep k with ⟨hmem, -⟩ | ⟨-, heq⟩
  · obtain ⟨t, row, rfl, hcase⟩ := effect_logged hmem
    have hrow : (s.fires t).point.row = some row := by
      rcases hcase with ⟨-, m, hpoint⟩ | ⟨b, tx, -, hc⟩
      · rw [hpoint]
        rfl
      · rw [calls_undone hs.placed hc]
        rfl
    obtain ⟨row', hget, -⟩ := hs.agrees hrow
    rw [hnew] at hget
    cases hget
  · exact heq

/-- One step keeps the invariant. -/
theorem Counts.step (hs : Counts s) (hg : Spaced env a s)
    (hstep : apply env a s = some s') : Counts s' where
  placed := placed_step hs.placed hstep
  agrees := by
    intro t row hrow
    have hthere : ∃ row', s.schedules.get row.id = some row'
        ∧ SameSchedule row row' := by
      rcases row_origin hstep hrow with hrow₀ | ⟨-, -, hget, -⟩
      · exact hs.agrees hrow₀
      · exact ⟨row, hget, SameSchedule.refl row⟩
    obtain ⟨row', hget, hsame⟩ := hthere
    obtain ⟨row'', hget', hsame', -⟩ := apply_row_kept hstep hget
    refine ⟨row'', hget', ?_⟩
    unfold SameSchedule at hsame hsame' ⊢
    rw [hsame] at hsame'
    exact hsame'
  unborn := by
    intro k hnone
    have hbefore : s.schedules.get k = none := by
      cases hget : s.schedules.get k with
      | none => rfl
      | some row =>
          obtain ⟨row', hget', -⟩ := apply_row_kept hstep hget
          rw [hnone] at hget'
          cases hget'
    exact (effects_unborn hs hstep hbefore).trans (hs.unborn hbefore)
  once := by
    rintro k ⟨row', hget', hkind⟩
    rcases apply_row hstep hget' with ⟨row, hget, hsame, -⟩ | ⟨hnew, -⟩
    · refine Once.step hs hg hstep ⟨row, hget, ?_⟩
      rw [hsame] at hkind
      exact hkind
    · -- a new row has been fired by nobody
      have hfree : ∀ {t}, ¬ Engaged s' t k := by
        rintro t ⟨row, hrow, rfl⟩
        rcases row_origin hstep hrow with hrow₀ | ⟨-, -, hget, -⟩
        · obtain ⟨row₁, hget₁, -⟩ := hs.agrees hrow₀
          rw [hnew] at hget₁
          cases hget₁
        · rw [hnew] at hget
          cases hget
      exact ⟨fun ht => absurd ht hfree, fun ht => absurd ht hfree,
        Or.inl ((effects_unborn hs hstep hnew).trans (hs.unborn hnew))⟩

end Step

-- ==================================================================== runs

section Runs

variable {env : Env} {s : State} {k : Uuid}

theorem init_counts : Counts State.init where
  placed _ := trivial
  agrees := by
    intro t row hrow
    cases hrow
  unborn _ := rfl
  once := by
    rintro k ⟨row, hget, -⟩
    cases hget

/-- In every run whose deliveries are spaced, a one-shot takes effect at
most once. -/
theorem one_shots_take_effect_once
    (h : Lts.Reachable (apply env) (Spaced env) State.init s)
    (hone : OneShot s.schedules k) : effects s k ≤ 1 := by
  have hcounts : Counts s := by
    refine Lts.Reachable.invariant (P := Counts) init_counts ?_ h
    exact fun s a s' _ hs hg hstep => hs.step hg hstep
  rcases (hcounts.once hone).counted with hzero | ⟨hcount, -⟩
  · exact hzero ▸ Nat.zero_le 1
  · exact hcount.le

/-- A step that takes no row back, and no delivery up or away. -/
theorem Spaced.of_writes {a : Action}
    (hw : ∀ w ∈ s.writes env a, isFinal w.2 = true)
    (ha : ∀ tid, a ≠ .check tid ∧ a ≠ .fail tid ∧ a ≠ .crash tid) :
    Spaced env a s where
  kept k st hmem hfinal := by
    rw [hw _ hmem] at hfinal
    cases hfinal
  alone tid _ hcheck := absurd hcheck (ha tid).1
  completes tid _ hstop := by
    rcases hstop with h | h
    · exact absurd h (ha tid).2.1
    · exact absurd h (ha tid).2.2

end Runs

-- =============================================================== scenarios

/-- A poll of a mailbox, once. -/
def pollOnce : Action :=
  .inner (.scheduleOneShot 80 "poll_mailbox_once"
    (.obj [("mailbox_id", .str "5")]) 0 "alice" none none none none)

/-- Its entry publishes, and the delivery runs to its end. -/
def polledOnce : List Action :=
  [pollOnce, .register 80, .beat 80, .deliver 6 0, .check 6, .handle 6,
    .publishPoll 6 false, .finish 6]

theorem one_shots_take_effect_once_poll : ∃ s,
    Lts.run (apply Env.default) State.init polledOnce = some s
      ∧ OneShot s.schedules 80 ∧ effects s 80 ≤ 1 ∧ s.polls = [5] := by
  have hr : ∃ s, Lts.run (apply Env.default) State.init polledOnce = some s
      ∧ Lts.Reachable (apply Env.default) (Spaced Env.default) State.init s
      ∧ OneShot s.schedules 80 ∧ s.polls = [5] := by
    refine ⟨_, rfl, .step (.finish 6) (.step (.publishPoll 6 false)
      (.step (.handle 6) (.step (.check 6) (.step (.deliver 6 0)
        (.step (.beat 80) (.step (.register 80) (.step pollOnce .init
          (.of_writes (fun _ h => by cases h) (by simp [pollOnce])) rfl)
          (.of_writes (fun _ h => by cases h) (by simp)) rfl)
          (.of_writes (fun _ h => by cases h) (by simp)) rfl)
          (.of_writes (fun _ h => by cases h) (by simp)) rfl) ?_ rfl)
          (.of_writes (fun _ h => by cases h) (by simp)) rfl)
          (.of_writes (fun _ h => by cases h) (by simp)) rfl)
          (.of_writes ?_ (by simp)) rfl, ⟨_, rfl, rfl⟩, rfl⟩
    · refine ⟨fun _ _ hmem => ?_, fun tid row _ _ _ _ _ t heng => ?_,
        fun _ _ hstop => ?_⟩
      · cases hmem
      · obtain ⟨row', hrow, -⟩ := heng
        by_cases ht : t = 6
        · subst ht
          cases hrow
        · have hidle : ∀ f : Fire, Function.update (fun _ => Fire.idle) 6 f t
              = .idle := fun f => Function.update_of_ne ht _ _
          have hpoint := congrArg (fun f => f.point.row)
            (hidle ⟨.received 80, some 0⟩)
          cases hpoint.symm.trans hrow
      · rcases hstop with h | h
        · cases h
        · cases h
    · intro w hw
      cases List.mem_singleton.mp hw
      rfl
  obtain ⟨s, hs, hreach, hone, hpolls⟩ := hr
  exact ⟨s, hs, hone, one_shots_take_effect_once hreach hone, hpolls⟩

/-- A reminder on session 10, once. -/
def remindOnce : Action :=
  .inner (.scheduleOneShot 80 "reminder"
    (.obj [("session_id", .str "10"), ("message", .str "Call Ana")]) 0
    "alice" (some 10) (some 2) none none)

/-- The entry publishes twice before the first delivery has expired the
row. -/
def remindedTwice : List Action :=
  firstStart.map (fun b => .inner (.base b)) ++
  [remindOnce, .register 80, .beat 80, .beat 80, .deliver 6 0,
    .deliver 7 1, .check 6, .check 7, .handle 6, .handle 7,
    .inner (.base (.advance 6 .ok)),
    .inner (.base (.advance 6 (.fresh [50, 51] ""))),
    .inner (.base (.advance 7 .ok)),
    .inner (.base (.advance 7 (.fresh [52, 53] "")))]

/-- Session 10 gets the reminder twice. -/
theorem one_shot_takes_effect_twice :
    ¬ ∀ s k, Lts.Reachable (apply Env.default) Lts.Always State.init s →
      OneShot s.schedules k → effects s k ≤ 1 := by
  intro h
  obtain ⟨s, hs⟩ := Option.isSome_iff_exists.mp
    (show (Lts.run (apply Env.default) State.init remindedTwice).isSome by
      decide +kernel)
  have hkind : (Lts.run (apply Env.default) State.init remindedTwice).bind
      (fun s => (s.schedules.get 80).map (·.scheduleKind))
      = some .oneShot := by decide +kernel
  have htwice : (Lts.run (apply Env.default) State.init
      remindedTwice).map (fun s => effects s 80) = some 2 := by
    decide +kernel
  rw [hs] at hkind htwice
  obtain ⟨row, hget, hone⟩ := Option.map_eq_some_iff.mp hkind
  have hcount : effects s 80 = 2 := Option.some.inj htwice
  have hle := h s 80 (Lts.reachable_of_run .init hs) ⟨row, hget, hone⟩
  omega

end LegalBot.Firing
