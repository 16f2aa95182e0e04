/-
Concurrent appends to version chains.

# The data

A store is a list of committed rows and, for each writer `t`, a `Draft`:
the ids of the rows its finished appends demoted and the rows they
inserted. `Draft.on C` is what the writer sees of the committed rows `C`
through its own draft, and what its commit stores.

# The invariant

`Drafts cap C ds`: what every writer sees is, cell by cell, a chain of
at most `cap` rows with distinct ids, and no two drafts have inserted
into one cell or used one id. It is kept by `rollback`, by `commit` and
by `insert`, whose hypotheses are what two unique indexes enforce: no
flagged row and no id twice in the writer's own view, no insert of
another draft into the same cell.

`Carries` is what every step keeps of the rows themselves: none is lost
and none changes but for its flag.

# Why a commit leaves the others intact

A draft only demotes rows that its own inserts supersede (`covered`), so
on a cell without inserts it does nothing (`untouched`). Of two drafts at
least one has no insert in a given cell.
-/
import LegalBot.Lib.VersionChain
import Mathlib.Data.List.Nodup
import Mathlib.Logic.Function.Basic

namespace VersionChain

open Versioned (cell demote latest prior version)

universe u v w

variable {ρ : Type u} {κ : Type v} {γ : Type w} [Versioned ρ κ γ]

/-- Rows with one id are the same row. -/
theorem eq_of_id {l : List ρ} (h : (l.map Versioned.id).Nodup) {x y : ρ}
    (hx : x ∈ l) (hy : y ∈ l) (hid : Versioned.id x = Versioned.id y) :
    x = y :=
  List.inj_on_of_nodup_map h hx hy hid

-- ================================================================= carries

/-- Every row of `l` is among `l'`, up to its flag. -/
def Carries (l l' : List ρ) : Prop :=
  ∀ x ∈ l, ∃ x' ∈ l', demote x' = demote x

section Carries

variable {l l' l'' : List ρ}

theorem Carries.refl : Carries l l := fun x hx => ⟨x, hx, rfl⟩

theorem Carries.trans (h : Carries l l') (h' : Carries l' l'') :
    Carries l l'' := by
  intro x hx
  obtain ⟨x', hx', heq⟩ := h x hx
  obtain ⟨x'', hx'', heq'⟩ := h' x' hx'
  exact ⟨x'', hx'', heq'.trans heq⟩

theorem Carries.append (h : Carries l l') :
    Carries (l ++ l'') (l' ++ l'') := by
  intro x hx
  rcases List.mem_append.mp hx with hx | hx
  · obtain ⟨x', hx', heq⟩ := h x hx
    exact ⟨x', List.mem_append_left _ hx', heq⟩
  · exact ⟨x, List.mem_append_right _ hx, rfl⟩

theorem carries_appended : Carries l (l ++ l') :=
  fun x hx => ⟨x, List.mem_append_left _ hx, rfl⟩

end Carries

variable [DecidableEq κ]

-- ================================================================== drafts

/-- The uncommitted writes of one writer. -/
structure Draft (ρ : Type u) (κ : Type v) where
  demoted : List κ
  inserted : List ρ

/-- Nothing written. -/
def Draft.empty : Draft ρ κ := ⟨[], []⟩

/-- The committed rows as the writer sees them. -/
def Draft.on (d : Draft ρ κ) (C : List ρ) : List ρ :=
  C.map (demoteIn d.demoted) ++ d.inserted

/-- Add an append that demoted `p` and inserted `r`. -/
def Draft.extend (d : Draft ρ κ) (p : Option κ) (r : ρ) : Draft ρ κ :=
  { demoted := p.toList ++ d.demoted
    inserted := d.inserted.map (demoteIn p.toList) ++ [r] }

section Draft

variable {C : List ρ} {d : Draft ρ κ} {p : Option κ} {r : ρ}

@[simp] theorem Draft.empty_on : (Draft.empty : Draft ρ κ).on C = C := by
  unfold Draft.on Draft.empty
  simp [map_demoteIn_of_disjoint]

/-- An append as the writer sees it. -/
theorem Draft.extend_on :
    (d.extend p r).on C = (d.on C).map (demoteIn p.toList) ++ [r] := by
  unfold Draft.on Draft.extend
  rw [List.map_append, List.map_map, List.append_assoc]
  congr 1
  exact List.map_congr_left fun x _ => demoteIn_append

theorem ids_map_demoteIn {l : List ρ} {ids : List κ} :
    (l.map (demoteIn ids)).map Versioned.id = l.map Versioned.id := by
  rw [List.map_map]
  exact List.map_congr_left fun x _ => id_demoteIn

theorem Draft.ids_on : (d.on C).map Versioned.id
    = C.map Versioned.id ++ d.inserted.map Versioned.id := by
  unfold Draft.on
  rw [List.map_append, ids_map_demoteIn]

end Draft

-- ================================================= what a draft carries

section Carried

variable {l l' : List ρ} {ids : List κ} {C : List ρ}
  {d d' : Draft ρ κ} {p : Option κ} {r : ρ}

theorem Carries.map_demoteIn (h : Carries l l') :
    Carries (l.map (demoteIn ids)) (l'.map (demoteIn ids)) := by
  intro x hx
  obtain ⟨y, hy, rfl⟩ := List.mem_map.mp hx
  obtain ⟨y', hy', heq⟩ := h y hy
  exact ⟨demoteIn ids y', List.mem_map_of_mem hy', by simpa using heq⟩

theorem carries_demoted : Carries l (l.map (demoteIn ids)) :=
  fun x hx => ⟨demoteIn ids x, List.mem_map_of_mem hx, by simp⟩

/-- A writer sees every committed row. -/
theorem Draft.carries_on : Carries C (d.on C) :=
  carries_demoted.trans carries_appended

/-- It goes on seeing them, and what it inserted, after a commit. -/
theorem Draft.carries_after_commit :
    Carries (d'.on C) (d'.on (d.on C)) :=
  (Carries.map_demoteIn Draft.carries_on).append

/-- An append takes no row away. -/
theorem Draft.carries_extend :
    Carries (d.on C) ((d.extend p r).on C) := by
  rw [Draft.extend_on]
  exact carries_demoted.trans carries_appended

end Carried

variable [DecidableEq γ]

/-- Demoting rows of other cells leaves a cell alone. -/
theorem rowsOf_demoted_elsewhere {l : List ρ}
    (hids : (l.map Versioned.id).Nodup) {ids : List κ} {c : γ}
    (h : ∀ q ∈ ids, ∃ y ∈ l, Versioned.id y = q ∧ cell y ≠ c) :
    rowsOf c (l.map (demoteIn ids)) = rowsOf c l := by
  rw [rowsOf_map_demoteIn]
  refine map_demoteIn_of_disjoint fun x hx hq => ?_
  obtain ⟨hxl, hxc⟩ := mem_rowsOf.mp hx
  obtain ⟨y, hy, hyid, hyc⟩ := h _ hq
  exact hyc (by rw [eq_of_id hids hy hxl hyid, hxc])

-- ================================================================ one append

/-- `l'` is `l` with a version added: the last row of its cell is
demoted, and it is appended. -/
structure Appended (l : List ρ) (r : ρ) (l' : List ρ) : Prop where
  rows : l' = l.map (demoteIn (lastId (rowsOf (cell r) l)).toList) ++ [r]
  next : version r = (rowsOf (cell r) l).length + 1
  supersedes : prior r = lastId (rowsOf (cell r) l)
  flagged : latest r = true

section Appending

variable {l l' : List ρ} {r : ρ} {c : γ}

/-- The cell of the new row. -/
theorem Appended.own (h : Appended l r l') : rowsOf (cell r) l'
    = (rowsOf (cell r) l).map
      (demoteIn (lastId (rowsOf (cell r) l)).toList) ++ [r] := by
  rw [h.rows, rowsOf_append, rowsOf_map_demoteIn]
  congr 1
  unfold rowsOf
  simp

/-- Every other cell is as it was. -/
theorem Appended.other (h : Appended l r l')
    (hids : (l.map Versioned.id).Nodup) (hc : c ≠ cell r) :
    rowsOf c l' = rowsOf c l := by
  have hnone : rowsOf c [r] = [] := by
    unfold rowsOf
    simp [Ne.symm hc]
  rw [h.rows, rowsOf_append, hnone, List.append_nil]
  refine rowsOf_demoted_elsewhere hids fun q hq => ?_
  obtain ⟨y, hy, hid⟩ := Option.map_eq_some_iff.mp (Option.mem_toList.mp hq)
  obtain ⟨hmem, hcell⟩ := mem_rowsOf.mp (List.mem_of_getLast? hy)
  exact ⟨y, hmem, hid, fun h => hc (h.symm.trans hcell)⟩

theorem Appended.ids (h : Appended l r l') :
    l'.map Versioned.id = l.map Versioned.id ++ [Versioned.id r] := by
  rw [h.rows, List.map_append, List.map_map, List.map_singleton]
  congr 1
  exact List.map_congr_left fun x _ => id_demoteIn

/-- Chains stay chains. -/
theorem Appended.chains (h : Appended l r l')
    (hids : (l.map Versioned.id).Nodup)
    (hl : ∀ c, IsChain (rowsOf c l)) (c : γ) : IsChain (rowsOf c l') := by
  by_cases hc : c = cell r
  · subst hc
    rw [h.own]
    refine (hl (cell r)).extend (fun q hq => ?_) (hl (cell r)).demoted_last
      h.next h.supersedes h.flagged
    obtain ⟨y, hy, hid⟩ := Option.map_eq_some_iff.mp hq
    exact ⟨y, List.mem_of_getLast? hy, hid⟩
  · rw [h.other hids hc]
    exact hl c

end Appending

-- =============================================================== invariant

/-- Concurrent drafts over committed rows. -/
structure Drafts {ι : Type} (cap : Nat) (C : List ρ)
    (ds : ι → Draft ρ κ) : Prop where
  committed : ∀ c, IsChain (rowsOf c C)
  committedIds : (C.map Versioned.id).Nodup
  committedBound : ∀ c, (rowsOf c C).length ≤ cap
  chains : ∀ t c, IsChain (rowsOf c ((ds t).on C))
  ids : ∀ t, (((ds t).on C).map Versioned.id).Nodup
  bound : ∀ t c, (rowsOf c ((ds t).on C)).length ≤ cap
  apart : ∀ t t', t ≠ t' → ∀ r ∈ (ds t).inserted,
    ∀ r' ∈ (ds t').inserted,
      Versioned.id r ≠ Versioned.id r' ∧ cell r ≠ cell r'
  covered : ∀ t, ∀ q ∈ (ds t).demoted,
    ∃ r ∈ (ds t).inserted, prior r = some q

section Cells

variable {C : List ρ} {d : Draft ρ κ} {c : γ}

theorem Draft.rowsOf_on : rowsOf c (d.on C)
    = (rowsOf c C).map (demoteIn d.demoted) ++ rowsOf c d.inserted := by
  unfold Draft.on
  rw [rowsOf_append, rowsOf_map_demoteIn]

/-- A draft without inserts in a cell has demoted nothing there. -/
theorem untouched (hids : ((d.on C).map Versioned.id).Nodup)
    (hcovered : ∀ q ∈ d.demoted, ∃ r ∈ d.inserted, prior r = some q)
    (hchains : ∀ r ∈ d.inserted, Linked (rowsOf (cell r) (d.on C)))
    (hnone : rowsOf c d.inserted = []) :
    rowsOf c (d.on C) = rowsOf c C := by
  rw [Draft.rowsOf_on, hnone, List.append_nil]
  refine map_demoteIn_of_disjoint fun x hx hq => ?_
  obtain ⟨hxC, hxc⟩ := mem_rowsOf.mp hx
  -- the row that supersedes `x` is in the cell of `x`
  obtain ⟨r, hr, hprior⟩ := hcovered _ hq
  have hr' : r ∈ rowsOf (cell r) (d.on C) :=
    mem_rowsOf.mpr ⟨List.mem_append_right _ hr, rfl⟩
  obtain ⟨y, hy, hyid, -⟩ := (hchains r hr).prior_mem hr' hprior
  obtain ⟨hyon, hyc⟩ := mem_rowsOf.mp hy
  have hxon : demoteIn d.demoted x ∈ d.on C :=
    List.mem_append_left _ (List.mem_map_of_mem hxC)
  have hyx : y = demoteIn d.demoted x :=
    eq_of_id hids hyon hxon (hyid.trans id_demoteIn.symm)
  have hrc : cell r = c := by
    rw [← hyc, hyx, cell_demoteIn]
    exact hxc
  have hmem : r ∈ rowsOf c d.inserted := mem_rowsOf.mpr ⟨hr, hrc⟩
  rw [hnone] at hmem
  cases hmem

end Cells

section Reading

variable {ι : Type} {cap : Nat} {C : List ρ} {ds : ι → Draft ρ κ}
  {t t' : ι} {c : γ}

theorem Drafts.untouched (h : Drafts cap C ds)
    (hnone : rowsOf c (ds t).inserted = []) :
    rowsOf c ((ds t).on C) = rowsOf c C :=
  VersionChain.untouched (h.ids t) (h.covered t)
    (fun r _ => (h.chains t (cell r)).linked) hnone

/-- Of two drafts, one has no insert in a cell. -/
theorem Drafts.exclusive (h : Drafts cap C ds) (hne : t ≠ t')
    (hsome : rowsOf c (ds t).inserted ≠ []) :
    rowsOf c (ds t').inserted = [] := by
  obtain ⟨r, hr⟩ := List.exists_mem_of_ne_nil _ hsome
  obtain ⟨hrd, hrc⟩ := mem_rowsOf.mp hr
  by_contra hsome'
  obtain ⟨r', hr'⟩ := List.exists_mem_of_ne_nil _ hsome'
  obtain ⟨hrd', hrc'⟩ := mem_rowsOf.mp hr'
  exact (h.apart t t' hne r hrd r' hrd').2 (hrc.trans hrc'.symm)

/-- A draft with inserts in a cell has inserted its flagged row. -/
theorem Drafts.latest_inserted (h : Drafts cap C ds) {r : ρ}
    (hr : r ∈ (ds t).inserted) :
    ∃ r' ∈ (ds t).inserted, cell r' = cell r ∧ latest r' = true := by
  have hflagged := (h.chains t (cell r)).flagged
  rw [Draft.rowsOf_on] at hflagged
  have hne : rowsOf (cell r) (ds t).inserted ≠ [] :=
    List.ne_nil_of_mem (mem_rowsOf.mpr ⟨hr, rfl⟩)
  have hlast := List.getLast?_append_of_ne_nil
    ((rowsOf (cell r) C).map (demoteIn (ds t).demoted)) hne
  rw [hlast, List.getLast?_eq_getLast_of_ne_nil hne] at hflagged
  have hmem : (rowsOf (cell r) (ds t).inserted).getLast hne
      ∈ List.filter (fun x => latest x)
        ((rowsOf (cell r) C).map (demoteIn (ds t).demoted)
          ++ rowsOf (cell r) (ds t).inserted) := by
    rw [hflagged]
    exact List.mem_singleton_self _
  have hin := List.getLast_mem hne
  obtain ⟨hd, hc⟩ := mem_rowsOf.mp hin
  exact ⟨_, hd, hc, (List.mem_filter.mp hmem).2⟩

/-- On a cell with inserts of its own, a writer sees no change when
another one commits. -/
theorem Drafts.rowsOf_of_inserted (h : Drafts cap C ds) (hne : t' ≠ t)
    (hsome : rowsOf c (ds t').inserted ≠ []) :
    rowsOf c ((ds t').on ((ds t).on C)) = rowsOf c ((ds t').on C) := by
  rw [Draft.rowsOf_on, h.untouched (h.exclusive hne hsome),
    ← Draft.rowsOf_on]

/-- The ids of two drafts over the committed rows. -/
theorem Drafts.ids_after_commit (h : Drafts cap C ds) (hne : t' ≠ t) :
    (((ds t').on ((ds t).on C)).map Versioned.id).Nodup := by
  have hids := h.ids t
  have hids' := h.ids t'
  rw [Draft.ids_on] at hids hids'
  rw [Draft.ids_on, Draft.ids_on, List.nodup_append]
  obtain ⟨-, hnd', hdisj'⟩ := List.nodup_append.mp hids'
  refine ⟨hids, hnd', fun a ha b hb => ?_⟩
  rcases List.mem_append.mp ha with ha | ha
  · exact hdisj' a ha b hb
  · obtain ⟨r, hr, rfl⟩ := List.mem_map.mp ha
    obtain ⟨r', hr', rfl⟩ := List.mem_map.mp hb
    exact (h.apart t t' hne.symm r hr r' hr').1

/-- What a writer sees of a cell after another one's commit: what it saw
before, if it has inserts there, and else what the other one stored. -/
theorem Drafts.rowsOf_after_commit (h : Drafts cap C ds) (hne : t' ≠ t)
    (c : γ) :
    rowsOf c ((ds t').on ((ds t).on C)) = rowsOf c ((ds t').on C)
      ∨ (rowsOf c (ds t').inserted = []
        ∧ rowsOf c ((ds t').on ((ds t).on C))
          = rowsOf c ((ds t).on C)) := by
  by_cases hnone : rowsOf c (ds t').inserted = []
  · refine Or.inr ⟨hnone, VersionChain.untouched (h.ids_after_commit hne)
      (h.covered t') (fun r hr => ?_) hnone⟩
    have hsome : rowsOf (cell r) (ds t').inserted ≠ [] :=
      List.ne_nil_of_mem (mem_rowsOf.mpr ⟨hr, rfl⟩)
    rw [h.rowsOf_of_inserted hne hsome]
    exact (h.chains t' (cell r)).linked
  · exact Or.inl (h.rowsOf_of_inserted hne hnone)

/-- The ids a writer sees in a cell are only added to by another one's
commit. -/
theorem Drafts.ids_grow (h : Drafts cap C ds) (hne : t' ≠ t) (c : γ) :
    (rowsOf c ((ds t').on C)).map Versioned.id
      <+: (rowsOf c ((ds t').on ((ds t).on C))).map Versioned.id := by
  rcases h.rowsOf_after_commit hne c with heq | ⟨hnone, heq⟩
  · rw [heq]
  · rw [heq, h.untouched hnone, Draft.rowsOf_on, List.map_append,
      ids_map_demoteIn]
    exact List.prefix_append _ _

/-- No rows and nothing written. -/
theorem Drafts.init : Drafts cap ([] : List ρ)
    (fun _ : ι => (Draft.empty : Draft ρ κ)) :=
  ⟨fun _ => .nil, List.nodup_nil, fun _ => Nat.zero_le cap,
    fun _ _ => .nil, fun _ => List.nodup_nil, fun _ _ => Nat.zero_le cap,
    (fun _ _ _ _ h => by cases h), (fun _ _ h => by cases h)⟩

/-- What a writer must have found out before it inserts `r`: it demoted
the row it names, if any; the next version is free and within bounds;
its view shows no flagged row in the cell and nothing under the id; no
other draft has inserted into the cell or used the id. -/
structure Insertable (cap : Nat) (C : List ρ) (ds : ι → Draft ρ κ)
    (t : ι) (p : Option κ) (r : ρ) : Prop where
  demotes : ∀ q, p = some q →
    ∃ x ∈ rowsOf (cell r) ((ds t).on C), Versioned.id x = q
  supersedes : prior r = p
  flagged : latest r = true
  next : version r = (rowsOf (cell r) ((ds t).on C)).length + 1
  bounded : version r ≤ cap
  noLatest : ∀ x ∈ rowsOf (cell r) (((ds t).on C).map
    (demoteIn p.toList)), latest x = false
  freshId : Versioned.id r ∉ ((ds t).on C).map Versioned.id
  alone : ∀ t', t' ≠ t → ∀ r' ∈ (ds t').inserted,
    Versioned.id r' ≠ Versioned.id r ∧ cell r' ≠ cell r

/-- The cells of a draft after an append. -/
theorem Insertable.rowsOf_extend {p : Option κ} {r : ρ}
    (h : Drafts cap C ds) (hi : Insertable cap C ds t p r) (c : γ) :
    IsChain (rowsOf c (((ds t).extend p r).on C))
      ∧ (rowsOf c (((ds t).extend p r).on C)).length ≤ cap := by
  rw [Draft.extend_on, rowsOf_append, rowsOf_map_demoteIn]
  by_cases hc : cell r = c
  · subst hc
    have hone : rowsOf (cell r) [r] = [r] := by
      unfold rowsOf
      simp
    have hflags := hi.noLatest
    rw [rowsOf_map_demoteIn] at hflags
    rw [hone]
    refine ⟨(h.chains t (cell r)).extend hi.demotes hflags hi.next
      hi.supersedes hi.flagged, ?_⟩
    have hv := hi.next
    have hb := hi.bounded
    rw [List.length_append, List.length_map, List.length_singleton]
    omega
  · -- the row it demoted is in another cell
    have hnone : rowsOf c [r] = [] := by
      unfold rowsOf
      simp [hc]
    have hsame : (rowsOf c ((ds t).on C)).map (demoteIn p.toList)
        = rowsOf c ((ds t).on C) := by
      rw [← rowsOf_map_demoteIn]
      refine rowsOf_demoted_elsewhere (h.ids t) fun q hq => ?_
      obtain ⟨y, hy, hyid⟩ := hi.demotes q (Option.mem_toList.mp hq)
      obtain ⟨hyon, hyc⟩ := mem_rowsOf.mp hy
      exact ⟨y, hyon, hyid, fun hyc' => hc (hyc.symm.trans hyc')⟩
    rw [hnone, hsame, List.append_nil]
    exact ⟨h.chains t c, h.bound t c⟩

end Reading

-- ================================================================= keeping

section Keeping

variable {ι : Type} [DecidableEq ι] {cap : Nat} {C : List ρ}
  {ds : ι → Draft ρ κ} {t : ι}

/-- One draft ends: what is left to show is about the stored rows and
what the other writers see of them. -/
theorem Drafts.reset (h : Drafts cap C ds) {C' : List ρ}
    (hchains : ∀ c, IsChain (rowsOf c C'))
    (hids : (C'.map Versioned.id).Nodup)
    (hbound : ∀ c, (rowsOf c C').length ≤ cap)
    (hothers : ∀ t', t' ≠ t →
      (((ds t').on C').map Versioned.id).Nodup
        ∧ ∀ c, IsChain (rowsOf c ((ds t').on C'))
          ∧ (rowsOf c ((ds t').on C')).length ≤ cap) :
    Drafts cap C' (Function.update ds t .empty) := by
  refine ⟨hchains, hids, hbound, fun t' c => ?_, fun t' => ?_,
    fun t' c => ?_, fun t₁ t₂ hne r hr r' hr' => ?_, fun t' q hq => ?_⟩
  · by_cases ht : t' = t
    · rw [ht, Function.update_self, Draft.empty_on]
      exact hchains c
    · rw [Function.update_of_ne ht]
      exact ((hothers t' ht).2 c).1
  · by_cases ht : t' = t
    · rw [ht, Function.update_self, Draft.empty_on]
      exact hids
    · rw [Function.update_of_ne ht]
      exact (hothers t' ht).1
  · by_cases ht : t' = t
    · rw [ht, Function.update_self, Draft.empty_on]
      exact hbound c
    · rw [Function.update_of_ne ht]
      exact ((hothers t' ht).2 c).2
  · by_cases ht₁ : t₁ = t
    · rw [ht₁, Function.update_self] at hr
      cases hr
    · by_cases ht₂ : t₂ = t
      · rw [ht₂, Function.update_self] at hr'
        cases hr'
      · rw [Function.update_of_ne ht₁] at hr
        rw [Function.update_of_ne ht₂] at hr'
        exact h.apart t₁ t₂ hne r hr r' hr'
  · by_cases ht : t' = t
    · rw [ht, Function.update_self] at hq
      cases hq
    · rw [Function.update_of_ne ht] at hq ⊢
      exact h.covered t' q hq

/-- Drop a draft. -/
theorem Drafts.rollback (h : Drafts cap C ds) :
    Drafts cap C (Function.update ds t .empty) :=
  h.reset h.committed h.committedIds h.committedBound fun t' _ =>
    ⟨h.ids t', fun c => ⟨h.chains t' c, h.bound t' c⟩⟩

/-- Store what a writer sees. -/
theorem Drafts.commit (h : Drafts cap C ds) :
    Drafts cap ((ds t).on C) (Function.update ds t .empty) := by
  refine h.reset (h.chains t) (h.ids t) (h.bound t) fun t' ht =>
    ⟨h.ids_after_commit ht, fun c => ?_⟩
  rcases h.rowsOf_after_commit ht c with heq | ⟨-, heq⟩
  · rw [heq]
    exact ⟨h.chains t' c, h.bound t' c⟩
  · rw [heq]
    exact ⟨h.chains t c, h.bound t c⟩

/-- Demote the last row and append its successor to a draft. -/
theorem Drafts.insert (h : Drafts cap C ds) {p : Option κ} {r : ρ}
    (hi : Insertable cap C ds t p r) :
    Drafts cap C (Function.update ds t ((ds t).extend p r)) := by
  have hcells := hi.rowsOf_extend h
  -- what an insert of the draft has as id and cell
  have hextended : ∀ x ∈ ((ds t).extend p r).inserted,
      (∃ y ∈ (ds t).inserted, Versioned.id x = Versioned.id y
        ∧ cell x = cell y ∧ prior x = prior y) ∨ x = r := by
    intro x hx
    rcases List.mem_append.mp hx with hx | hx
    · obtain ⟨y, hy, rfl⟩ := List.mem_map.mp hx
      exact Or.inl ⟨y, hy, id_demoteIn, cell_demoteIn, prior_demoteIn⟩
    · exact Or.inr (List.mem_singleton.mp hx)
  have hapart : ∀ t', t' ≠ t → ∀ x ∈ ((ds t).extend p r).inserted,
      ∀ x' ∈ (ds t').inserted,
        Versioned.id x ≠ Versioned.id x' ∧ cell x ≠ cell x' := by
    intro t' ht x hx x' hx'
    rcases hextended x hx with ⟨y, hy, hid, hcell, -⟩ | rfl
    · rw [hid, hcell]
      exact h.apart t t' ht.symm y hy x' hx'
    · exact ⟨(hi.alone t' ht x' hx').1.symm, (hi.alone t' ht x' hx').2.symm⟩
  refine ⟨h.committed, h.committedIds, h.committedBound, fun t' c => ?_,
    fun t' => ?_, fun t' c => ?_, fun t₁ t₂ hne x hx x' hx' => ?_,
    fun t' q hq => ?_⟩
  · by_cases ht : t' = t
    · rw [ht, Function.update_self]
      exact (hcells c).1
    · rw [Function.update_of_ne ht]
      exact h.chains t' c
  · by_cases ht : t' = t
    · rw [ht, Function.update_self, Draft.extend_on, List.map_append,
        ids_map_demoteIn, List.nodup_append]
      refine ⟨h.ids t, List.nodup_singleton _, fun a ha b hb => ?_⟩
      rw [List.mem_singleton.mp hb]
      rintro rfl
      exact hi.freshId ha
    · rw [Function.update_of_ne ht]
      exact h.ids t'
  · by_cases ht : t' = t
    · rw [ht, Function.update_self]
      exact (hcells c).2
    · rw [Function.update_of_ne ht]
      exact h.bound t' c
  · by_cases ht₁ : t₁ = t
    · have ht₂ : t₂ ≠ t := fun h₂ => hne (ht₁.trans h₂.symm)
      rw [ht₁, Function.update_self] at hx
      rw [Function.update_of_ne ht₂] at hx'
      exact hapart t₂ ht₂ x hx x' hx'
    · rw [Function.update_of_ne ht₁] at hx
      by_cases ht₂ : t₂ = t
      · rw [ht₂, Function.update_self] at hx'
        have hboth := hapart t₁ ht₁ x' hx' x hx
        exact ⟨hboth.1.symm, hboth.2.symm⟩
      · rw [Function.update_of_ne ht₂] at hx'
        exact h.apart t₁ t₂ hne x hx x' hx'
  · by_cases ht : t' = t
    · rw [ht, Function.update_self] at hq ⊢
      rcases List.mem_append.mp hq with hq | hq
      · -- the row just demoted is superseded by the row just inserted
        refine ⟨r, List.mem_append_right _ (List.mem_singleton_self _), ?_⟩
        rw [hi.supersedes]
        exact Option.mem_toList.mp hq
      · obtain ⟨y, hy, hprior⟩ := h.covered t q hq
        exact ⟨demoteIn p.toList y,
          List.mem_append_left _ (List.mem_map_of_mem hy),
          prior_demoteIn.trans hprior⟩
    · rw [Function.update_of_ne ht] at hq ⊢
      exact h.covered t' q hq

end Keeping

end VersionChain
