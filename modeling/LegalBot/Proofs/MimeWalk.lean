/-
The MIME walk of `_extract_body` against the preorder of the payload.

`_walk` is the visits of the parts in preorder (`walk_eq`), so the tree is
only there to give that list. Along it `text` and `html` are set once, by
the first part that carries data of the type; what is taken is told by its
place in the preorder, since two parts may be equal. Every other part with
an attachment id is reported, in order (`mime_walk`).
-/
import LegalBot.Providers.Gmail

namespace LegalBot.Gmail

open Providers (given)

-- ================================================================= preorder

mutual

/-- The part, then its parts one after another. -/
def Part.preorder : Part → List Part
  | .mk mimeType filename headers body parts =>
      .mk mimeType filename headers body parts :: preorderParts parts

def preorderParts : List Part → List Part
  | [] => []
  | part :: rest => part.preorder ++ preorderParts rest

end

/-- The part has inline data of the type. -/
def Part.carries (mime : String) (p : Part) : Bool :=
  p.mime = mime && (given p.body.data).isSome

/-- The decoded data of the first part that carries the type. -/
def firstDecoded (lib : Library) (mime : String) (ps : List Part) :
    Option (Option String) :=
  match ps.find? (·.carries mime) with
  | none => some none
  | some p => (decodeData lib ((given p.body.data).getD "")).map some

/-- The place of that part. -/
def firstAt (mime : String) (ps : List Part) : Option Nat :=
  ps.findIdx? (·.carries mime)

/-- The part at `i` is the one that is taken as text, or as html. -/
def Taken (ps : List Part) (i : Nat) : Prop :=
  firstAt "text/plain" ps = some i ∨ firstAt "text/html" ps = some i

instance (ps : List Part) (i : Nat) : Decidable (Taken ps i) :=
  inferInstanceAs (Decidable (firstAt _ ps = some i ∨ firstAt _ ps = some i))

/-- The parts with an attachment id that are not taken, with their
places. -/
def reported (ps : List Part) : List (Part × Nat) :=
  ps.zipIdx.filter fun q => q.1.attachment.isSome ∧ ¬Taken ps q.2

-- =================================================================== visits

section Visits

variable {lib : Library} {p : Part} {ps : List Part} {acc : Body}
  {mime : String} {seen : Option String} {k l : Option Nat} {i n : Nat}

mutual

/-- The walk is the visits in preorder. -/
theorem walk_eq (lib : Library) (p : Part) (acc : Body) :
    walk lib p acc = p.preorder.foldlM (fun acc q => visit lib q acc) acc := by
  cases p with
  | mk mimeType filename headers body parts =>
      rw [walk, Part.preorder, List.foldlM_cons]
      exact bind_congr fun acc => walkParts_eq lib parts acc

theorem walkParts_eq (lib : Library) (ps : List Part) (acc : Body) :
    walkParts lib ps acc
      = (preorderParts ps).foldlM (fun acc q => visit lib q acc) acc := by
  cases ps with
  | nil => rfl
  | cons p rest =>
      rw [walkParts, preorderParts, List.foldlM_append, walk_eq]
      exact bind_congr fun acc => walkParts_eq lib rest acc

end

theorem not_html_of_plain (h : p.carries "text/plain" = true) :
    ¬p.carries "text/html" = true := by
  intro hhtml
  unfold Part.carries at h hhtml
  rw [Bool.and_eq_true, decide_eq_true_eq] at h hhtml
  rw [h.1] at hhtml
  exact absurd hhtml.1 (by decide)

theorem visit_text (h : p.carries "text/plain" = true)
    (hacc : acc.text = none) :
    visit lib p acc
      = (decodeData lib ((given p.body.data).getD "")).map fun text =>
          { acc with text := some text } := by
  unfold Part.carries at h
  rw [Bool.and_eq_true, decide_eq_true_eq] at h
  obtain ⟨data, hdata⟩ := Option.isSome_iff_exists.mp h.2
  unfold visit
  rw [hdata]
  dsimp only
  rw [if_pos ⟨h.1, hacc⟩, Option.getD_some]

theorem visit_html (h : p.carries "text/html" = true)
    (hacc : acc.html = none) :
    visit lib p acc
      = (decodeData lib ((given p.body.data).getD "")).map fun html =>
          { acc with html := some html } := by
  unfold Part.carries at h
  rw [Bool.and_eq_true, decide_eq_true_eq] at h
  obtain ⟨data, hdata⟩ := Option.isSome_iff_exists.mp h.2
  have hplain : ¬(p.mime = "text/plain" ∧ acc.text = none) := fun hp => by
    rw [h.1] at hp
    exact absurd hp.1 (by decide)
  unfold visit
  rw [hdata]
  dsimp only
  rw [if_neg hplain, if_pos ⟨h.1, hacc⟩, Option.getD_some]

theorem visit_other
    (htext : p.carries "text/plain" = true → acc.text ≠ none)
    (hhtml : p.carries "text/html" = true → acc.html ≠ none) :
    visit lib p acc
      = some { acc with
          attachments := acc.attachments ++ p.attachment.toList } := by
  unfold visit
  cases hdata : given p.body.data with
  | none => rfl
  | some data =>
      have hcarries : ∀ mime, p.mime = mime → p.carries mime = true := by
        intro mime hmime
        rw [Part.carries, hdata]
        simp [hmime]
      dsimp only
      rw [if_neg fun h => htext (hcarries _ h.1) h.2,
        if_neg fun h => hhtml (hcarries _ h.1) h.2]

/-- What a walk from `seen` on finds in the parts that are left. -/
def foundIn (lib : Library) (seen : Option String) (mime : String)
    (ps : List Part) : Option (Option String) :=
  match seen with
  | some text => some (some text)
  | none => firstDecoded lib mime ps

/-- And where, the parts that are left starting at `n`. -/
def foundAt (seen : Option String) (mime : String) (n : Nat)
    (ps : List Part) : Option Nat :=
  match seen with
  | some _ => none
  | none => (firstAt mime ps).map (· + n)

/-- The parts that are left with an attachment id, but those at `k` and
`l`. -/
def reportedFrom (k l : Option Nat) (n : Nat) (ps : List Part) :
    List (Part × Nat) :=
  (ps.zipIdx n).filter fun q =>
    q.1.attachment.isSome ∧ ¬(k = some q.2 ∨ l = some q.2)

theorem foundAt_ge (h : foundAt seen mime n ps = some i) : n ≤ i := by
  cases seen with
  | some text => cases h
  | none =>
      obtain ⟨j, -, rfl⟩ := Option.map_eq_some_iff.mp h
      exact Nat.le_add_left n j

/-- A part that is passed over. -/
theorem foundIn_cons (h : p.carries mime = true → seen ≠ none) :
    foundIn lib seen mime (p :: ps) = foundIn lib seen mime ps := by
  cases seen with
  | some text => rfl
  | none =>
      have hp : p.carries mime = false := by simpa using h
      unfold foundIn firstDecoded
      dsimp only
      rw [List.find?_cons_of_neg (by simp [hp])]

theorem foundAt_cons (h : p.carries mime = true → seen ≠ none) :
    foundAt seen mime n (p :: ps) = foundAt seen mime (n + 1) ps := by
  cases seen with
  | some text => rfl
  | none =>
      have hp : p.carries mime = false := by simpa using h
      unfold foundAt firstAt
      dsimp only
      rw [List.findIdx?_cons, hp, if_neg Bool.false_ne_true, Option.map_map]
      refine congrArg (fun f => Option.map f _) (funext fun j => ?_)
      show j + 1 + n = j + (n + 1)
      omega

/-- The part that is taken. -/
theorem foundIn_taken (h : p.carries mime = true) :
    foundIn lib none mime (p :: ps)
      = (decodeData lib ((given p.body.data).getD "")).map some := by
  unfold foundIn firstDecoded
  dsimp only
  rw [List.find?_cons_of_pos (by simpa using h)]

theorem foundAt_taken (h : p.carries mime = true) :
    foundAt none mime n (p :: ps) = some n := by
  unfold foundAt firstAt
  dsimp only
  rw [List.findIdx?_cons, h, if_pos rfl, Option.map_some, Nat.zero_add]

theorem reportedFrom_text :
    reportedFrom (some n) l n (p :: ps) = reportedFrom none l (n + 1) ps := by
  unfold reportedFrom
  rw [List.zipIdx_cons, List.filter_cons_of_neg (by simp)]
  refine List.filter_congr fun q hq => ?_
  have hge := List.le_snd_of_mem_zipIdx hq
  have hne : n ≠ q.2 := by omega
  simp [hne]

theorem reportedFrom_html :
    reportedFrom k (some n) n (p :: ps) = reportedFrom k none (n + 1) ps := by
  unfold reportedFrom
  rw [List.zipIdx_cons, List.filter_cons_of_neg (by simp)]
  refine List.filter_congr fun q hq => ?_
  have hge := List.le_snd_of_mem_zipIdx hq
  have hne : n ≠ q.2 := by omega
  simp [hne]

theorem reportedFrom_other (hk : ∀ i, k = some i → n < i)
    (hl : ∀ i, l = some i → n < i) :
    (reportedFrom k l n (p :: ps)).filterMap (·.1.attachment)
      = p.attachment.toList
        ++ (reportedFrom k l (n + 1) ps).filterMap (·.1.attachment) := by
  have hk' : k ≠ some n := fun h => Nat.lt_irrefl n (hk n h)
  have hl' : l ≠ some n := fun h => Nat.lt_irrefl n (hl n h)
  unfold reportedFrom
  rw [List.zipIdx_cons]
  cases hp : p.attachment with
  | none =>
      rw [List.filter_cons_of_neg (by simp [hp])]
      rfl
  | some a =>
      rw [List.filter_cons_of_pos (by simp [hp, hk', hl']),
        List.filterMap_cons_some (f := fun q : Part × Nat => q.1.attachment) hp]
      rfl

/-- The visits of the parts that are left, from what has been found. -/
theorem visits_eq (lib : Library) (ps : List Part) (acc : Body) (n : Nat) :
    ps.foldlM (fun acc q => visit lib q acc) acc = (do
      let text ← foundIn lib acc.text "text/plain" ps
      let html ← foundIn lib acc.html "text/html" ps
      some
        { text := text
          html := html
          attachments := acc.attachments
            ++ (reportedFrom (foundAt acc.text "text/plain" n ps)
                (foundAt acc.html "text/html" n ps) n ps).filterMap
              (·.1.attachment) }) := by
  induction ps generalizing acc n with
  | nil =>
      obtain ⟨text, html, attachments⟩ := acc
      have hin : ∀ seen mime, foundIn lib seen mime [] = some seen := by
        intro seen mime
        cases seen <;> rfl
      simp [hin, reportedFrom]
  | cons p ps ih =>
      rw [List.foldlM_cons]
      by_cases htext : p.carries "text/plain" = true ∧ acc.text = none
      · -- taken as text
        obtain ⟨hplain, hacc⟩ := htext
        have hhtml : p.carries "text/html" = true → acc.html ≠ none :=
          fun h => absurd h (not_html_of_plain hplain)
        rw [visit_text hplain hacc, hacc, foundIn_taken hplain,
          foundAt_taken hplain, foundIn_cons hhtml, foundAt_cons hhtml,
          reportedFrom_text]
        cases decodeData lib ((given p.body.data).getD "") with
        | none => rfl
        | some text => exact ih { acc with text := some text } (n + 1)
      · by_cases hhtml : p.carries "text/html" = true ∧ acc.html = none
        · -- taken as html
          obtain ⟨hmime, hacc⟩ := hhtml
          have htext' : p.carries "text/plain" = true → acc.text ≠ none :=
            fun h hnone => htext ⟨h, hnone⟩
          rw [visit_html hmime hacc, hacc, foundIn_taken hmime,
            foundAt_taken hmime, foundIn_cons htext', foundAt_cons htext',
            reportedFrom_html]
          cases decodeData lib ((given p.body.data).getD "") with
          | none => cases foundIn lib acc.text "text/plain" ps <;> rfl
          | some html => exact ih { acc with html := some html } (n + 1)
        · -- passed over, and reported if it has an attachment id
          have htext' : p.carries "text/plain" = true → acc.text ≠ none :=
            fun h hnone => htext ⟨h, hnone⟩
          have hhtml' : p.carries "text/html" = true → acc.html ≠ none :=
            fun h hnone => hhtml ⟨h, hnone⟩
          rw [visit_other htext' hhtml', foundIn_cons htext',
            foundIn_cons hhtml', foundAt_cons htext', foundAt_cons hhtml',
            reportedFrom_other (fun i hi => foundAt_ge hi)
              fun i hi => foundAt_ge hi, ← List.append_assoc]
          exact ih _ (n + 1)

end Visits

-- ============================================================ the MIME walk

section Walk

variable {ps : List Part}

theorem reportedFrom_zero :
    reportedFrom (foundAt none "text/plain" 0 ps)
      (foundAt none "text/html" 0 ps) 0 ps = reported ps := by
  have hat : ∀ mime, foundAt none mime 0 ps = firstAt mime ps := by
    intro mime
    exact Option.map_id'
  refine List.filter_congr fun q _ => decide_eq_decide.mpr ?_
  rw [hat, hat, Taken]

/-- `_extract_body` decodes the first part of each type in preorder that
carries data, and reports the parts with an attachment id that are left:
each place once, in preorder. -/
theorem mime_walk (lib : Library) (payload : Part) :
    extractBody lib payload = (do
        let text ← firstDecoded lib "text/plain" payload.preorder
        let html ← firstDecoded lib "text/html" payload.preorder
        some
          { text := text
            html := html
            attachments := (reported payload.preorder).filterMap
              (·.1.attachment) })
      ∧ (∀ p i, (p, i) ∈ reported payload.preorder
          ↔ payload.preorder[i]? = some p ∧ p.attachment.isSome = true
            ∧ ¬Taken payload.preorder i)
      ∧ ((reported payload.preorder).map (·.2)).Pairwise (· < ·) := by
  refine ⟨?_, fun p i => ?_, ?_⟩
  · rw [extractBody, walk_eq, visits_eq lib payload.preorder _ 0,
      reportedFrom_zero]
    rfl
  · unfold reported
    rw [List.mem_filter, List.mk_mem_zipIdx_iff_getElem?]
    simp
  · have hall : (payload.preorder.zipIdx.map (·.2)).Pairwise (· < ·) := by
      rw [List.zipIdx_map_snd]
      exact List.pairwise_lt_range'
    exact hall.sublist (List.filter_sublist.map _)

end Walk

end LegalBot.Gmail
