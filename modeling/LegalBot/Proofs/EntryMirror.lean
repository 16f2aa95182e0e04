/-
The entries of redbeat as a mirror of the active rows.

# Agreement

An entry is to be there as the open transaction of its row has last said
or, where it has not said anything, as the row was committed (`wanted`).
Steps that are `Clean` keep the entries equal to that, so they agree with
the rows that no transaction has (`entries_agree`).

# Rebuilds

A rebuild brings back what is missing, after whatever: a row that is left
alone while it runs has an entry in the end if it is active, and keeps
the one it had if it is not (`rebuild_restores`).
-/
import LegalBot.Scheduling.Redbeat

namespace LegalBot.Redbeat

open Relational (HasKey Table)

-- ================================================================ statements

/-- There is to be an entry. -/
def State.wanted (s : State) (k : Uuid) : Bool :=
  ((s.pending.get k).bind (·.wrote)).getD
    ((s.schedules.get k).any isActive)

/-- The write to redbeat succeeds, a transaction that has written to it
is not aborted, an `UPDATE` that finds no row is not about one that is
being inserted, and a rebuild saves the entry of no row that has changed
since its `SELECT`. -/
def Clean (a : Action) (s : State) : Prop :=
  match a with
  | .mirror _ _ ok => ok = true
  | .abort tx => ∀ p ∈ s.lockedBy tx, p.wrote = none
  | .missed id _ _ => s.pending.get id = none
  | .register w ok =>
      ok = true → ∀ id ∈ (s.sweeps w).head?, s.wanted id = true
  | _ => True

/-- The step is not about the row, and does not keep the rebuild from
saving its entry. -/
def LeavesAlone (w : Nat) (k : Uuid) (a : Action) (s : State) : Prop :=
  match a with
  | .schedule _ row => row.id ≠ k
  | .update _ id _ | .missed id _ _ => id ≠ k
  | .register v ok => v = w → (s.sweeps w).head? = some k → ok = true
  | .sweep v | .stop v => v ≠ w
  | _ => True

instance (a : Action) (s : State) : Decidable (Clean a s) :=
  match a with
  | .schedule .. | .update .. | .commit _ | .sweep _ | .stop _ =>
      isTrue trivial
  | .mirror _ _ ok => inferInstanceAs (Decidable (ok = true))
  | .abort tx =>
      inferInstanceAs (Decidable (∀ p ∈ s.lockedBy tx, p.wrote = none))
  | .missed id _ _ =>
      inferInstanceAs (Decidable (s.pending.get id = none))
  | .register w ok => inferInstanceAs (Decidable
      (ok = true → ∀ id ∈ (s.sweeps w).head?, s.wanted id = true))

instance (w : Nat) (k : Uuid) (a : Action) (s : State) :
    Decidable (LeavesAlone w k a s) :=
  match a with
  | .mirror .. | .commit _ | .abort _ => isTrue trivial
  | .schedule _ row => inferInstanceAs (Decidable (row.id ≠ k))
  | .update _ id _ | .missed id _ _ => inferInstanceAs (Decidable (id ≠ k))
  | .register v ok => inferInstanceAs (Decidable
      (v = w → (s.sweeps w).head? = some k → ok = true))
  | .sweep v | .stop v => inferInstanceAs (Decidable (v ≠ w))

-- =================================================================== lookups

section Lookups

variable {s : State} {tx : Nat} {k : Uuid} {p q : Pending}
  {t : Table ScheduledJob} {ps : List Pending}

theorem storePending_other (h : p.row.id ≠ k) :
    (storePending t p).get k = t.get k := by
  unfold storePending
  split
  · rename_i t' hins
    rw [Table.get_insert hins]
    exact if_neg h
  · unfold setScheduledStatus
    rw [Table.get_updateWhere]
    cases hrow : t.get k with
    | none => rfl
    | some row =>
        have hkey : row.id = k := Table.key_of_get hrow
        have hne : row.id ≠ p.row.id := fun e => h (e.symm.trans hkey)
        simp [hne]

theorem storePending_self :
    ((storePending t p).get p.row.id).any isActive = isActive p.row := by
  unfold storePending
  split
  · rename_i t' hins
    rw [Table.get_insert hins]
    exact congrArg (Option.any isActive) (if_pos rfl)
  · rename_i hnone
    have hsome : ∃ row, t.get p.row.id = some row := by
      by_contra hmissing
      have hfresh : t.get (HasKey.key p.row) = none :=
        Option.eq_none_iff_forall_ne_some.mpr fun row hrow =>
          hmissing ⟨row, hrow⟩
      obtain ⟨t', hins⟩ := Table.insert_of_fresh hfresh
      rw [hins] at hnone
      cases hnone
    obtain ⟨row, hrow⟩ := hsome
    have hkey : row.id = p.row.id := Table.key_of_get hrow
    unfold setScheduledStatus
    rw [Table.get_updateWhere, hrow]
    simp [hkey, isActive]

/-- A commit leaves the other rows as they are. -/
theorem stored_other (h : ∀ p ∈ ps, p.row.id ≠ k) :
    (ps.foldl storePending t).get k = t.get k := by
  induction ps generalizing t with
  | nil => rfl
  | cons p rest ih =>
      rw [List.foldl_cons, ih fun q hq => h q (List.mem_cons_of_mem _ hq),
        storePending_other (h p List.mem_cons_self)]

/-- It stores what the transaction has made of its own. -/
theorem stored_self (hnodup : (ps.map fun p => p.row.id).Nodup)
    (hp : p ∈ ps) :
    ((ps.foldl storePending t).get p.row.id).any isActive
      = isActive p.row := by
  induction ps generalizing t with
  | nil => cases hp
  | cons q rest ih =>
      obtain ⟨hq, hrest⟩ := List.nodup_cons.mp hnodup
      rw [List.foldl_cons]
      rcases List.mem_cons.mp hp with rfl | hp
      · have hother : ∀ r ∈ rest, r.row.id ≠ p.row.id := fun r hr he =>
          hq (List.mem_map.mpr ⟨r, hr, he⟩)
        rw [stored_other hother]
        exact storePending_self
      · exact ih hrest hp

theorem mem_lockedBy : p ∈ s.lockedBy tx
    ↔ s.pending.get p.row.id = some p ∧ p.tx = tx := by
  unfold State.lockedBy
  rw [List.mem_filter, decide_eq_true_iff]
  exact and_congr_left' Table.mem_rows

theorem lockedBy_nodup :
    ((s.lockedBy tx).map fun p => p.row.id).Nodup :=
  s.pending.nodup.sublist (List.Sublist.map _ List.filter_sublist)

/-- The rows that others have stay locked. -/
theorem unlock_get :
    (s.unlock tx).get k = (s.pending.get k).filter fun p => p.tx ≠ tx := by
  cases hk : s.pending.get k with
  | none =>
      rw [Option.filter_none]
      refine Table.get_eq_none.mpr fun hmem => Table.get_eq_none.mp hk ?_
      exact (List.Sublist.map _ List.filter_sublist).subset hmem
  | some p =>
      obtain ⟨hp, hkey⟩ := Table.get_some hk
      by_cases htx : p.tx = tx
      · rw [Option.filter_some, if_neg (by simpa using htx)]
        refine Table.get_eq_none.mpr fun hmem => ?_
        obtain ⟨q, hq, hqk⟩ := List.mem_map.mp hmem
        obtain ⟨hq, hother⟩ := List.mem_filter.mp hq
        have hsame : q = p :=
          List.inj_on_of_nodup_map s.pending.nodup hq hp
            (hqk.trans hkey.symm)
        exact of_decide_eq_true hother (hsame ▸ htx)
      · rw [Option.filter_some, if_pos (by simpa using htx), ← hkey]
        exact Table.get_of_mem
          (List.mem_filter.mpr ⟨hp, by simpa using htx⟩)

theorem due_of_ready (h : s.ready tx = true)
    (hp : s.pending.get k = some p) (htx : p.tx = tx) : p.due = false := by
  have hall := List.all_eq_true.mp h p (Table.get_some hp).1
  simpa [htx] using of_decide_eq_true hall

/-- What a commit makes of a row that the transaction has not. -/
theorem committed_other
    (h : ∀ p, s.pending.get k = some p → p.tx ≠ tx) :
    ((s.lockedBy tx).foldl storePending s.schedules).get k
      = s.schedules.get k := by
  refine stored_other fun p hp he => ?_
  obtain ⟨hget, htx⟩ := mem_lockedBy.mp hp
  exact h p (he ▸ hget) htx

end Lookups

-- ================================================================= agreement

/-- The entries are those that are wanted, and a transaction has said what
it has done. -/
structure Mirrored (s : State) : Prop where
  entries : ∀ k, k ∈ s.entries ↔ s.wanted k = true
  wrote : ∀ k p, s.pending.get k = some p → p.due = false →
    p.wrote = some (isActive p.row)

section Agreement

variable {s s' : State} {a : Action} {k id : Uuid} {p : Pending}

theorem wanted_iff
    (hwrote : (s'.pending.get k).bind (·.wrote)
      = (s.pending.get k).bind (·.wrote))
    (hrow : (s'.schedules.get k).any isActive
      = (s.schedules.get k).any isActive) :
    s.wanted k = true ↔ s'.wanted k = true := by
  unfold State.wanted
  rw [hwrote, hrow]

theorem mem_writeEntry {entries : Finset Uuid} {saved : Bool} :
    k ∈ writeEntry entries id saved true
      ↔ if k = id then saved = true else k ∈ entries := by
  unfold writeEntry
  cases saved <;> by_cases hk : k = id <;> simp [hk]

/-- A new lock has nothing written yet. -/
theorem Mirrored.locked (h : Mirrored s) {pending : Table Pending}
    (hins : s.pending.insert p = some pending) (hwrote : p.wrote = none)
    (hdue : p.due = true) : Mirrored { s with pending := pending } := by
  have hfresh : s.pending.get p.row.id = none := Table.insert_fresh hins
  have hget : ∀ k, pending.get k
      = if p.row.id = k then some p else s.pending.get k :=
    fun k => Table.get_insert hins k
  refine ⟨fun k => (h.entries k).trans (wanted_iff ?_ rfl),
    fun k q hq hfalse => ?_⟩
  · dsimp only
    rw [hget]
    by_cases hk : p.row.id = k
    · rw [if_pos hk, ← hk, hfresh]
      exact hwrote
    · rw [if_neg hk]
  · rw [hget] at hq
    by_cases hk : p.row.id = k
    · rw [if_pos hk, Option.some.injEq] at hq
      rw [← hq, hdue] at hfalse
      cases hfalse
    · rw [if_neg hk] at hq
      exact h.wrote k q hq hfalse

theorem Mirrored.update (h : Mirrored s) {change : Change} :
    Mirrored { s with
      pending := s.pending.updateWhere (fun p => p.row.id = id)
        fun p => { p with
          row := { p.row with status := change.status }
          due := true } } := by
  refine ⟨fun k => (h.entries k).trans (wanted_iff ?_ rfl),
    fun k q hq hfalse => ?_⟩
  · dsimp only
    rw [Table.get_updateWhere]
    cases s.pending.get k with
    | none => rfl
    | some p =>
        by_cases hid : p.row.id = id
        · simp [hid]
        · simp [hid]
  · dsimp only at hq
    rw [Table.get_updateWhere] at hq
    obtain ⟨p, hp, hpq⟩ := Option.map_eq_some_iff.mp hq
    by_cases hid : p.row.id = id
    · rw [if_pos (decide_eq_true hid)] at hpq
      rw [← hpq] at hfalse
      cases hfalse
    · rw [if_neg (by simpa using hid)] at hpq
      exact hpq ▸ h.wrote k p hp (hpq ▸ hfalse)

theorem Mirrored.mirror (h : Mirrored s) (hp : s.pending.get id = some p) :
    Mirrored { s with
      entries := writeEntry s.entries id (isActive p.row) true
      pending := s.pending.updateWhere (fun p => p.row.id = id)
        fun p => { p with
          wrote := if true then some (isActive p.row) else p.wrote
          due := false } } := by
  have hkey : p.row.id = id := Table.key_of_get hp
  refine ⟨fun k => ?_, fun k q hq hfalse => ?_⟩
  · rw [mem_writeEntry]
    unfold State.wanted
    dsimp only
    rw [Table.get_updateWhere]
    by_cases hk : k = id
    · rw [if_pos hk, hk, hp]
      simp [hkey]
    · rw [if_neg hk, h.entries k]
      unfold State.wanted
      cases hq : s.pending.get k with
      | none => rfl
      | some q =>
          have hqk : q.row.id = k := Table.key_of_get hq
          have hne : q.row.id ≠ id := fun e => hk (hqk.symm.trans e)
          simp [hne]
  · dsimp only at hq
    rw [Table.get_updateWhere] at hq
    obtain ⟨p', hp', hpq⟩ := Option.map_eq_some_iff.mp hq
    by_cases hid : p'.row.id = id
    · rw [if_pos (decide_eq_true hid)] at hpq
      exact hpq ▸ rfl
    · rw [if_neg (by simpa using hid)] at hpq
      exact hpq ▸ h.wrote k p' hp' (hpq ▸ hfalse)

theorem Mirrored.commit (h : Mirrored s) {tx : Nat}
    (hready : s.ready tx = true) :
    Mirrored { s with
      schedules := (s.lockedBy tx).foldl storePending s.schedules
      pending := s.unlock tx } := by
  refine ⟨fun k => (h.entries k).trans ?_, fun k q hq => ?_⟩
  · unfold State.wanted
    dsimp only
    rw [unlock_get]
    cases hp : s.pending.get k with
    | none =>
        rw [committed_other fun p hp' => by rw [hp] at hp'; cases hp']
        rfl
    | some p =>
        by_cases htx : p.tx = tx
        · -- the commit makes the row what the entry says
          have hwrote := h.wrote k p hp (due_of_ready hready hp htx)
          have hkey : p.row.id = k := Table.key_of_get hp
          have hstored := @stored_self p s.schedules _ (@lockedBy_nodup s tx)
            (mem_lockedBy.mpr ⟨hkey ▸ hp, htx⟩)
          rw [hkey] at hstored
          rw [hstored]
          simp [htx, hwrote, Option.filter_some]
        · rw [committed_other fun p' hp' => by
            rw [hp] at hp'
            exact Option.some.inj hp' ▸ htx]
          simp [htx, Option.filter_some]
  · dsimp only at hq
    rw [unlock_get] at hq
    exact h.wrote k q (Option.filter_eq_some_iff.mp hq).1

theorem Mirrored.abort (h : Mirrored s) {tx : Nat}
    (hnone : ∀ p ∈ s.lockedBy tx, p.wrote = none) :
    Mirrored { s with pending := s.unlock tx } := by
  refine ⟨fun k => (h.entries k).trans (wanted_iff ?_ rfl),
    fun k q hq => ?_⟩
  · dsimp only
    rw [unlock_get]
    cases hp : s.pending.get k with
    | none => rfl
    | some p =>
        by_cases htx : p.tx = tx
        · have hkey : p.row.id = k := Table.key_of_get hp
          have hwrote := hnone p (mem_lockedBy.mpr ⟨hkey ▸ hp, htx⟩)
          simp [htx, hwrote, Option.filter_some]
        · simp [htx, Option.filter_some]
  · dsimp only at hq
    rw [unlock_get] at hq
    exact h.wrote k q (Option.filter_eq_some_iff.mp hq).1

/-- A write to an entry that is as it is to be. -/
theorem Mirrored.wrote_entry (h : Mirrored s) {saved ok : Bool}
    (hwanted : ok = true → s.wanted id = saved) :
    Mirrored { s with entries := writeEntry s.entries id saved ok } := by
  refine ⟨fun k => ?_, h.wrote⟩
  cases ok with
  | false => exact h.entries k
  | true =>
      rw [mem_writeEntry]
      by_cases hk : k = id
      · rw [if_pos hk, hk, ← hwanted rfl]
        rfl
      · rw [if_neg hk]
        exact h.entries k

/-- The rebuilds under way have no part in it. -/
theorem Mirrored.sweeping (h : Mirrored s) {sweeps : Nat → List Uuid} :
    Mirrored { s with sweeps := sweeps } := ⟨h.entries, h.wrote⟩

theorem Mirrored.step (h : Mirrored s) (hclean : Clean a s)
    (hstep : apply a s = some s') : Mirrored s' := by
  unfold apply at hstep
  cases a with
  | schedule tx row =>
      dsimp only at hstep
      split at hstep
      · obtain ⟨pending, hins, hs'⟩ := Option.map_eq_some_iff.mp hstep
        exact hs' ▸ h.locked hins rfl rfl
      · cases hstep
  | update tx id change =>
      dsimp only at hstep
      split at hstep
      · split at hstep
        · split at hstep
          · injection hstep with hs'
            exact hs' ▸ h.update
          · cases hstep
        · obtain ⟨pending, hins, hs'⟩ := Option.map_eq_some_iff.mp hstep
          exact hs' ▸ h.locked hins rfl rfl
        · cases hstep
      · cases hstep
  | missed id change ok =>
      dsimp only at hstep
      split at hstep
      · rename_i hmissing
        injection hstep with hs'
        refine hs' ▸ h.wrote_entry fun _ => ?_
        unfold State.wanted
        rw [show s.pending.get id = none from hclean, hmissing.1]
        rfl
      · cases hstep
  | mirror tx id ok =>
      dsimp only at hstep
      split at hstep
      · rename_i p hp
        split at hstep
        · injection hstep with hs'
          rw [show ok = true from hclean] at hs'
          exact hs' ▸ h.mirror hp
        · cases hstep
      · cases hstep
  | commit tx =>
      dsimp only at hstep
      split at hstep
      · rename_i hready
        injection hstep with hs'
        exact hs' ▸ h.commit hready
      · cases hstep
  | abort tx =>
      injection hstep with hs'
      exact hs' ▸ h.abort hclean
  | sweep w | stop w =>
      injection hstep with hs'
      exact hs' ▸ h.sweeping
  | register w ok =>
      dsimp only at hstep
      split at hstep
      · rename_i id rest hsweep
        injection hstep with hs'
        refine hs' ▸ (h.wrote_entry fun hok => ?_).sweeping
        exact hclean hok id (by rw [hsweep]; rfl)
      · cases hstep

theorem mirrored_init : Mirrored .init where
  entries k := by simp [State.init, State.wanted]
  wrote k p hp := by cases hp

/-- In every run of clean steps the entries are those of the active rows,
where no transaction is open on the row. -/
theorem entries_agree (h : Reaches Clean s) (hfree : s.pending.get k = none) :
    k ∈ s.entries ↔ ∃ row, s.schedules.get k = some row
      ∧ row.status = .active := by
  have hmirrored : Mirrored s := Lts.Reachable.invariant mirrored_init
    (fun s a s' _ hm hclean hstep => hm.step hclean hstep) h
  rw [hmirrored.entries]
  unfold State.wanted
  rw [hfree]
  cases s.schedules.get k with
  | none => simp
  | some row => simp [isActive]

end Agreement

-- ================================================================== rebuilds

/-- Where the rebuild `w` stands with the row `k`, which is left alone
since it began in `s₀`. -/
structure Restoring (w : Nat) (k : Uuid) (s₀ s : State) : Prop where
  free : s.pending.get k = none
  row : s.schedules.get k = s₀.schedules.get k
  due : ∀ v, k ∈ s.sweeps v → (s₀.schedules.get k).any isActive = true
  kept : k ∈ s₀.entries → k ∈ s.entries
  only : k ∈ s.entries →
    k ∈ s₀.entries ∨ (s₀.schedules.get k).any isActive = true
  saved : (s₀.schedules.get k).any isActive = true →
    k ∈ s.sweeps w ∨ k ∈ s.entries

section Rebuilds

variable {s₀ s₁ s s' : State} {a : Action} {w : Nat} {k : Uuid}

theorem mem_activeIds :
    k ∈ s.activeIds ↔ (s.schedules.get k).any isActive = true := by
  unfold State.activeIds
  rw [List.mem_map]
  constructor
  · rintro ⟨row, hrow, rfl⟩
    obtain ⟨hmem, hactive⟩ := List.mem_filter.mp hrow
    rw [show s.schedules.get row.id = some row from Table.get_of_mem hmem]
    exact hactive
  · intro hactive
    cases hrow : s.schedules.get k with
    | none => simp [hrow] at hactive
    | some row =>
        rw [hrow] at hactive
        exact ⟨row, List.mem_filter.mpr ⟨(Table.get_some hrow).1, hactive⟩,
          Table.key_of_get hrow⟩

theorem writeEntry_other {entries : Finset Uuid} {id : Uuid}
    {saved ok : Bool} (h : id ≠ k) :
    k ∈ writeEntry entries id saved ok ↔ k ∈ entries := by
  cases ok with
  | false => exact Iff.rfl
  | true => rw [mem_writeEntry, if_neg h.symm]

/-- Entries, locks and rows of others may change. -/
theorem Restoring.frame (h : Restoring w k s₀ s)
    (hpending : s'.pending.get k = s.pending.get k)
    (hrow : s'.schedules.get k = s.schedules.get k)
    (hentry : k ∈ s'.entries ↔ k ∈ s.entries)
    (hsweeps : s'.sweeps = s.sweeps) : Restoring w k s₀ s' where
  free := hpending.trans h.free
  row := hrow.trans h.row
  due := by rw [hsweeps]; exact h.due
  kept hk := hentry.mpr (h.kept hk)
  only hk := h.only (hentry.mp hk)
  saved hk := by rw [hsweeps, hentry]; exact h.saved hk

theorem Restoring.register (h : Restoring w k s₀ s) {v : Nat} {ok : Bool}
    {id : Uuid} {rest : List Uuid} (hv : s.sweeps v = id :: rest)
    (hok : v = w → id = k → ok = true) :
    Restoring w k s₀ { s with
      entries := writeEntry s.entries id true ok
      sweeps := Function.update s.sweeps v rest } where
  free := h.free
  row := h.row
  due u hu := by
    dsimp only at hu
    by_cases huv : u = v
    · subst huv
      rw [Function.update_self] at hu
      exact h.due u (hv ▸ List.mem_cons_of_mem _ hu)
    · rw [Function.update_of_ne huv] at hu
      exact h.due u hu
  kept hk := by
    have hmem := h.kept hk
    cases ok with
    | false => exact hmem
    | true => exact Finset.mem_insert_of_mem hmem
  only hk := by
    by_cases hid : id = k
    · exact Or.inr (h.due v (hv ▸ hid ▸ List.mem_cons_self))
    · exact h.only ((writeEntry_other hid).mp hk)
  saved hactive := by
    dsimp only
    rcases h.saved hactive with hsweep | hentry
    · by_cases hvw : v = w
      · subst hvw
        rw [hv] at hsweep
        rw [Function.update_self]
        rcases List.mem_cons.mp hsweep with hk | hk
        · have hok' := hok rfl hk.symm
          subst hok'
          exact Or.inr (mem_writeEntry.mpr (by rw [if_pos hk]))
        · exact Or.inl hk
      · rw [Function.update_of_ne (Ne.symm hvw)]
        exact Or.inl hsweep
    · right
      cases ok with
      | false => exact hentry
      | true => exact Finset.mem_insert_of_mem hentry

theorem Restoring.sweep (h : Restoring w k s₀ s) {v : Nat} (hv : v ≠ w)
    {ids : List Uuid} (hids : k ∈ ids →
      (s.schedules.get k).any isActive = true) :
    Restoring w k s₀ { s with sweeps := Function.update s.sweeps v ids } where
  free := h.free
  row := h.row
  due u hu := by
    dsimp only at hu
    by_cases huv : u = v
    · subst huv
      rw [Function.update_self] at hu
      exact h.row ▸ hids hu
    · rw [Function.update_of_ne huv] at hu
      exact h.due u hu
  kept := h.kept
  only := h.only
  saved hactive := by
    dsimp only
    rw [Function.update_of_ne hv.symm]
    exact h.saved hactive

theorem Restoring.step (h : Restoring w k s₀ s)
    (halone : LeavesAlone w k a s) (hstep : apply a s = some s') :
    Restoring w k s₀ s' := by
  have hfree := h.free
  unfold apply at hstep
  cases a with
  | schedule tx row =>
      dsimp only at hstep
      split at hstep
      · obtain ⟨pending, hins, hs'⟩ := Option.map_eq_some_iff.mp hstep
        have hget : pending.get k = s.pending.get k :=
          (Table.get_insert hins k).trans (if_neg halone)
        exact hs' ▸ h.frame hget rfl Iff.rfl rfl
      · cases hstep
  | update tx id change =>
      have hid : id ≠ k := halone
      dsimp only at hstep
      split at hstep
      · split at hstep
        · split at hstep
          · injection hstep with hs'
            refine hs' ▸ h.frame ?_ rfl Iff.rfl rfl
            exact (Table.get_updateWhere_none hfree).trans hfree.symm
          · cases hstep
        · rename_i row _ hrow
          obtain ⟨pending, hins, hs'⟩ := Option.map_eq_some_iff.mp hstep
          have hne : row.id ≠ k := fun e =>
            hid ((Table.key_of_get hrow).symm.trans e)
          have hget : pending.get k = s.pending.get k :=
            (Table.get_insert hins k).trans (if_neg hne)
          exact hs' ▸ h.frame hget rfl Iff.rfl rfl
        · cases hstep
      · cases hstep
  | missed id change ok =>
      dsimp only at hstep
      split at hstep
      · injection hstep with hs'
        exact hs' ▸ h.frame rfl rfl (writeEntry_other halone) rfl
      · cases hstep
  | mirror tx id ok =>
      dsimp only at hstep
      split at hstep
      · rename_i p hp
        have hid : id ≠ k := by
          rintro rfl
          rw [hfree] at hp
          cases hp
        split at hstep
        · injection hstep with hs'
          refine hs' ▸ h.frame ?_ rfl (writeEntry_other hid) rfl
          exact (Table.get_updateWhere_none hfree).trans hfree.symm
        · cases hstep
      · cases hstep
  | commit tx =>
      dsimp only at hstep
      split at hstep
      · injection hstep with hs'
        refine hs' ▸ h.frame ?_ (committed_other fun p hp => ?_) Iff.rfl rfl
        · rw [unlock_get, hfree]
          rfl
        · rw [hfree] at hp
          cases hp
      · cases hstep
  | abort tx =>
      injection hstep with hs'
      refine hs' ▸ h.frame ?_ rfl Iff.rfl rfl
      rw [unlock_get, hfree]
      rfl
  | sweep v =>
      injection hstep with hs'
      exact hs' ▸ h.sweep halone mem_activeIds.mp
  | register v ok =>
      dsimp only at hstep
      split at hstep
      · rename_i id rest hsweep
        injection hstep with hs'
        refine hs' ▸ h.register hsweep fun hvw hid => ?_
        refine halone hvw ?_
        rw [← hvw, hsweep, hid]
        rfl
      · cases hstep
  | stop v =>
      injection hstep with hs'
      exact hs' ▸ h.sweep halone fun hmem => absurd hmem List.not_mem_nil

theorem restoring_start (hfree : s₀.pending.get k = none)
    (hold : ∀ v, k ∈ s₀.sweeps v →
      (s₀.schedules.get k).any isActive = true)
    (hsweep : apply (.sweep w) s₀ = some s₁) : Restoring w k s₀ s₁ := by
  injection hsweep with hs₁
  subst hs₁
  refine ⟨hfree, rfl, fun v hv => ?_, fun hk => hk, Or.inl, fun hk => ?_⟩
  · dsimp only at hv
    by_cases hvw : v = w
    · rw [hvw, Function.update_self] at hv
      exact mem_activeIds.mp hv
    · rw [Function.update_of_ne hvw] at hv
      exact hold v hv
  · left
    dsimp only
    rw [Function.update_self]
    exact mem_activeIds.mpr hk

end Rebuilds

-- ================================================================ scenarios

/-- A recurring reminder. -/
def reminder (id : Uuid) : ScheduledJob :=
  { id := id, kind := "reminder", payload := .obj [], scheduleKind := .cron
    status := .active, nextRunAt := none, ownerUserId := "alice"
    sessionId := none, jobId := none, runId := none, parentRunId := none }

/-- A transaction that schedules it. -/
def scheduling (tx : Nat) (id : Uuid) (ok : Bool) : List Action :=
  [.schedule tx (reminder id), .mirror tx id ok, .commit tx]

def changing (tx : Nat) (id : Uuid) (change : Change) (ok : Bool) :
    List Action :=
  [.update tx id change, .mirror tx id ok, .commit tx]

/-- Two reminders, a rebuild, and one of them is paused. -/
theorem paused_entry_deleted : ∃ s, Reaches Clean s ∧ s.entries = {81}
    ∧ (81 ∈ s.entries ↔ ∃ row, s.schedules.get 81 = some row
      ∧ row.status = .active) := by
  have hrun : (Lts.run (Lts.guarded apply Clean) .init
      (scheduling 0 80 true ++ scheduling 1 81 true
        ++ [.sweep 0, .register 0 true, .register 0 false]
        ++ changing 2 80 .pause true)).map
        (fun s => (s.entries, s.pending.get 81))
      = some ({81}, none) := by decide +kernel
  obtain ⟨s, hs, heq⟩ := Option.map_eq_some_iff.mp hrun
  obtain ⟨hentries, hfree⟩ := Prod.mk.inj heq
  have hreach := Lts.reachable_of_guarded_run .init hs
  exact ⟨s, hreach, hentries, entries_agree hreach hfree⟩

/-- Redis was away: one reminder has no entry, and another one has kept
its own when it was cancelled. -/
def afterOutage : State :=
  { schedules := ⟨[{ reminder 81 with status := .cancelled },
      reminder 80], by decide⟩
    entries := {81}, pending := .empty, sweeps := fun _ => [] }

example : Lts.run apply .init (scheduling 0 81 true
    ++ changing 1 81 .cancel false ++ scheduling 2 80 false)
    = some afterOutage := rfl

end LegalBot.Redbeat
