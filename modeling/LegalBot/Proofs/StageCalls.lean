/-
What a call of a stage tool writes, and which keys its output names.

# What is written

`Wrote sid s₀ s keys`: since `s₀` artifacts with those keys were written
in the session, and nothing else was done to the tables but new drafts;
no key that was there is gone (`Wrote.kept`).

# What is named

The output of a call names the key in its own members, and whatever is
named inside the values it passes on: the content and the metadata of an
artifact, its summary, the findings of an image (`Foreign`). Two members
name a key that need not be there: that of a read that found nothing, and
the text of an attachment whose extraction is skipped (`Unfound`).
`CallSpec` says so of every tool (`perform_ends`).
-/
import LegalBot.Agents.StageHistory
import LegalBot.Proofs.LoneWrites
import LegalBot.Proofs.ReadBack
import LegalBot.Proofs.ToolRuns

namespace LegalBot.Stages

open Raising (Ends ends_bind ends_pure run)
open Relational (Table)
open Tools

-- ===================================================================== names

/-- A member names the key, or its value does. -/
def NamedMember (m : String × Json) (k : String) : Prop :=
  match namedBy m.1 m.2 with
  | some found => k ∈ found
  | none => Named m.2 k

/-- A member with this name is looked into. -/
def PlainName (name : String) : Prop :=
  name ≠ "key" ∧ endsInArtifactKey name = false ∧ name ≠ "artifact_keys"

instance (name : String) : Decidable (PlainName name) :=
  inferInstanceAs (Decidable (name ≠ "key"
    ∧ endsInArtifactKey name = false ∧ name ≠ "artifact_keys"))

/-- A text under this name is a key. -/
def KeyName (name : String) : Prop :=
  name = "key" ∨ endsInArtifactKey name = true

instance (name : String) : Decidable (KeyName name) :=
  inferInstanceAs (Decidable
    (name = "key" ∨ endsInArtifactKey name = true))

section Names

variable {k s name : String} {v : Json} {ms ms' : List (String × Json)}
  {m : String × Json}

theorem named_obj : Named (.obj ms) k ↔ ∃ m ∈ ms, NamedMember m k := by
  constructor
  · intro h
    cases h with
    | member hmem hfound hk =>
        refine ⟨_, hmem, ?_⟩
        unfold NamedMember
        rw [hfound]
        exact hk
    | inside hmem hnone hchild =>
        refine ⟨_, hmem, ?_⟩
        unfold NamedMember
        rw [hnone]
        exact hchild
  · rintro ⟨⟨name, child⟩, hmem, hnamed⟩
    unfold NamedMember at hnamed
    cases hfound : namedBy name child with
    | some found =>
        rw [hfound] at hnamed
        exact .member hmem hfound hnamed
    | none =>
        rw [hfound] at hnamed
        exact .inside hmem hfound hnamed

@[simp] theorem named_nil : ¬Named (.obj []) k := by
  rw [named_obj]
  rintro ⟨_, hmem, _⟩
  cases hmem

@[simp] theorem named_cons : Named (.obj (m :: ms)) k
    ↔ NamedMember m k ∨ Named (.obj ms) k := by
  rw [named_obj, named_obj, List.exists_mem_cons_iff]

theorem named_append : Named (.obj (ms ++ ms')) k
    ↔ Named (.obj ms) k ∨ Named (.obj ms') k := by
  simp only [named_obj, List.mem_append, or_and_right, exists_or]

/-- A member that is there when `p` holds. -/
theorem named_optional {p : Prop} [Decidable p] :
    Named (.obj (if p then [m] else [])) k ↔ p ∧ NamedMember m k := by
  by_cases h : p
  · rw [if_pos h, named_cons, or_iff_left named_nil, and_iff_right h]
  · rw [if_neg h]
    exact iff_of_false named_nil fun hp => h hp.1

@[simp] theorem namedMember_plain (h : PlainName name) :
    NamedMember (name, v) k ↔ Named v k := by
  have hnone : namedBy name v = none := by
    unfold namedBy
    cases v with
    | str s =>
        refine if_neg (not_or.mpr ⟨h.1, ?_⟩)
        rw [h.2.1]
        exact Bool.false_ne_true
    | arr items => exact if_neg h.2.2
    | _ => rfl
  unfold NamedMember
  dsimp only
  rw [hnone]

@[simp] theorem namedMember_key (h : KeyName name) :
    NamedMember (name, .str s) k ↔ k = s := by
  have hsome : namedBy name (.str s) = some {s} := if_pos h
  unfold NamedMember
  dsimp only
  rw [hsome]
  exact Finset.mem_singleton

@[simp] theorem named_str : ¬Named (.str s) k := by
  intro h
  cases h

@[simp] theorem named_int {n : Int} : ¬Named (.int n) k := by
  intro h
  cases h

@[simp] theorem named_bool {b : Bool} : ¬Named (.bool b) k := by
  intro h
  cases h

@[simp] theorem named_null : ¬Named .null k := by
  intro h
  cases h

theorem named_arr {items : List Json} :
    Named (.arr items) k ↔ ∃ item ∈ items, Named item k := by
  constructor
  · intro h
    cases h with
    | item hmem hitem => exact ⟨_, hmem, hitem⟩
  · rintro ⟨item, hmem, hitem⟩
    exact .item hmem hitem

@[simp] theorem named_strings {texts : List String} :
    ¬Named (.arr (texts.map .str)) k := by
  rw [named_arr]
  rintro ⟨item, hmem, hitem⟩
  obtain ⟨text, _, rfl⟩ := List.mem_map.mp hmem
  exact named_str hitem

end Names

-- ================================================================ what is left

/-- An artifact of the session, or of its thread. -/
def Stands (db : Db) (sid : Uuid) (k : String) : Prop :=
  ∃ r ∈ db.artifacts.rows, r.key = k
    ∧ (r.sessionId = sid ∨ r.sessionId ∈ sessionIdsInEmailThread db sid)

/-- What was done since `s₀`. -/
structure Wrote (sid : Uuid) (s₀ s : ToolState) (keys : List String) :
    Prop where
  effects : ∃ effs, s.effects = s₀.effects ++ effs
    ∧ effs.filterMap writtenKey = keys
  frame : s.t.db = { s₀.t.db with artifacts := s.t.db.artifacts }
  kept : ∀ r ∈ s₀.t.db.artifacts.rows, ∃ r' ∈ s.t.db.artifacts.rows,
    r'.sessionId = r.sessionId ∧ r'.key = r.key
  stored : ∀ k ∈ keys, ∃ r ∈ s.t.db.artifacts.rows,
    r.sessionId = sid ∧ r.key = k

section Writing

variable {env : ToolEnv} {sid id : Uuid} {s₀ s s' : ToolState}
  {keys : List String} {k : String} {args : WriteArgs} {e : Effect}
  {E : ToolError → ToolState → Prop}

theorem Wrote.refl : Wrote sid s s [] :=
  ⟨⟨[], by simp, rfl⟩, rfl, fun r hr => ⟨r, hr, rfl, rfl⟩,
    fun _ hk => absurd hk List.not_mem_nil⟩

theorem Wrote.thread (h : Wrote sid s₀ s keys) :
    sessionIdsInEmailThread s.t.db sid
      = sessionIdsInEmailThread s₀.t.db sid := by
  rw [h.frame]
  rfl

/-- What stands goes on standing. -/
theorem Wrote.stands (h : Wrote sid s₀ s keys) (hk : Stands s₀.t.db sid k) :
    Stands s.t.db sid k := by
  obtain ⟨r, hr, hkey, hsession⟩ := hk
  obtain ⟨r', hr', hsession', hkey'⟩ := h.kept r hr
  refine ⟨r', hr', hkey'.trans hkey, ?_⟩
  rw [hsession', h.thread]
  exact hsession

theorem Wrote.written (h : Wrote sid s₀ s keys) :
    writtenBetween s₀ s = keys := by
  obtain ⟨effs, heffects, hkeys⟩ := h.effects
  unfold writtenBetween
  rw [heffects, List.drop_left, hkeys]

theorem Wrote.emitted (h : Wrote sid s₀ s keys)
    (he : writtenKey e = none) :
    Wrote sid s₀ { s with effects := s.effects ++ [e] } keys := by
  obtain ⟨effs, heffects, hkeys⟩ := h.effects
  refine ⟨⟨effs ++ [e], ?_, ?_⟩, h.frame, h.kept, h.stored⟩
  · rw [← List.append_assoc, ← heffects]
  · rw [List.filterMap_append, hkeys]
    simp [he]

theorem ends_emit (h : Wrote sid s₀ s keys) (he : writtenKey e = none) :
    Ends (emit e) (fun _ s' => Wrote sid s₀ s' keys) (fun _ _ => True) s :=
  Raising.ends_modify.mpr (h.emitted he)

/-- Rows are demoted, not deleted, and keep their session and key. -/
theorem mem_demoted {artifacts : Table Artifact} (prior : Option Uuid)
    {r : Artifact} (hr : r ∈ artifacts.rows) :
    ∃ r' ∈ (demoteLatest artifacts prior).rows,
      r'.sessionId = r.sessionId ∧ r'.key = r.key := by
  refine ⟨_, List.mem_map_of_mem hr, ?_⟩
  split
  · exact ⟨rfl, rfl⟩
  · exact ⟨rfl, rfl⟩

theorem ends_writeArtifact (h : Wrote sid s₀ s keys)
    (hsid : args.sessionId = sid) :
    Ends (writeArtifact env args id) (fun row s' =>
      row.key = args.key ∧ Wrote sid s₀ s' (keys ++ [args.key]))
      (fun _ _ => True) s := by
  unfold Ends
  rw [run_writeArtifact]
  cases hwrite : write env.rt env.svc s.t.db.artifacts s.blobs args id with
  | error e => trivial
  | ok written =>
      obtain ⟨row, artifacts, blobs⟩ := written
      obtain ⟨-, -, hkey, hsession⟩ := write_holds hwrite
      obtain ⟨_, prior, -, -, -, -, hrows, -⟩ := write_ok hwrite
      obtain ⟨effs, heffects, hkeys⟩ := h.effects
      have hold : ∀ r ∈ s.t.db.artifacts.rows, ∃ r' ∈ artifacts.rows,
          r'.sessionId = r.sessionId ∧ r'.key = r.key := by
        intro r hr
        obtain ⟨r', hr', hsame⟩ := mem_demoted prior hr
        rw [hrows]
        exact ⟨r', List.mem_append_left _ hr', hsame⟩
      refine ⟨hkey, ⟨effs ++ [.write args row], ?_, ?_⟩, ?_, ?_, ?_⟩
      · rw [← List.append_assoc, ← heffects]
      · rw [List.filterMap_append, hkeys, ← hkey]
        rfl
      · show { s.t.db with artifacts := artifacts } = _
        rw [h.frame]
      · intro r hr
        obtain ⟨r', hr', hsession', hkey'⟩ := h.kept r hr
        obtain ⟨r'', hr'', hsession'', hkey''⟩ := hold r' hr'
        exact ⟨r'', hr'', hsession''.trans hsession',
          hkey''.trans hkey'⟩
      · intro k hk
        rcases List.mem_append.mp hk with hk | hk
        · obtain ⟨r, hr, hsession', hkey'⟩ := h.stored k hk
          obtain ⟨r', hr', hsession'', hkey''⟩ := hold r hr
          exact ⟨r', hr', hsession''.trans hsession',
            hkey''.trans hkey'⟩
        · refine ⟨row, ?_, hsession.trans hsid,
            hkey.trans (List.mem_singleton.mp hk).symm⟩
          rw [hrows]
          exact List.mem_append_right _ (List.mem_singleton_self row)

theorem ends_query {α β : Type} {f : ToolState → α} {g : α → ToolM β}
    {Q : β → ToolState → Prop} :
    Ends (query f >>= g) Q E s ↔ Ends (g (f s)) Q E s := by
  unfold Ends
  rw [run_query_bind]

theorem ends_attempt {ε α : Type} {wrap : ε → ToolError} {x : Except ε α}
    {Q : α → ToolState → Prop} (h : ∀ a, x = .ok a → Q a s) :
    Ends (attempt wrap x) Q (fun _ _ => True) s := by
  unfold attempt
  cases x with
  | ok a => exact ends_pure.mpr (h a rfl)
  | error e => exact Raising.ends_throw.mpr trivial

theorem ends_map {α β : Type} {f : α → β} {x : ToolM α}
    {Q : β → ToolState → Prop} :
    Ends (f <$> x) Q E s ↔ Ends x (fun a => Q (f a)) E s := by
  rw [map_eq_pure_bind, ends_bind]
  exact Iff.rfl

/-- What was written stands. -/
theorem Wrote.stands_written (h : Wrote sid s₀ s keys) (hk : k ∈ keys) :
    Stands s.t.db sid k := by
  obtain ⟨r, hr, hsession, hkey⟩ := h.stored k hk
  exact ⟨r, hr, hkey, Or.inl hsession⟩

/-- What can be read by its key is a row of the session. -/
theorem row_of_read {db : Db} {rt : Runtime} {blobs : Blobs}
    {content : Content}
    (h : (read rt db.artifacts.rows blobs sid (.key k) none).map (·.2)
      = .ok content) :
    ∃ r ∈ db.artifacts.rows, r.sessionId = sid ∧ r.key = k := by
  cases hread : read rt db.artifacts.rows blobs sid (.key k) none with
  | error e =>
      rw [hread] at h
      cases h
  | ok found =>
      obtain ⟨row, content'⟩ := found
      exact ⟨row, read_key hread⟩

/-- The preview is a text, or there is none. -/
theorem ends_preview {preview : Option String}
    {Q : List (String × Json) → ToolState → Prop}
    (h : ∀ shown, (∀ m ∈ shown, ∃ text, m = ("preview", .str text)) →
      Q shown s) :
    Ends (previewMember env sid preview) Q (fun _ _ => True) s := by
  have hone : ∀ text, ∀ m ∈ [("preview", Json.str text)],
      ∃ text', m = ("preview", .str text') := fun text m hm =>
    ⟨text, List.mem_singleton.mp hm⟩
  unfold previewMember
  cases preview with
  | none => exact ends_pure.mpr (h [] fun _ hm => absurd hm List.not_mem_nil)
  | some key =>
      dsimp only
      unfold readKey
      rw [ends_query]
      split
      · exact ends_pure.mpr (h _ (hone _))
      · split
        · exact ends_pure.mpr (h _ (hone _))
        · exact Raising.ends_throw.mpr trivial

/-- A skip changes nothing; it is one because the key is there. -/
theorem ends_skip {preview : Option String} :
    Ends (skipIfArtifactExists env sid k preview) (fun skipped s' =>
      s' = s ∧ ∀ payload, skipped = some payload →
        (∃ r ∈ s.t.db.artifacts.rows, r.sessionId = sid ∧ r.key = k)
          ∧ ∃ shown content,
            payload = ("already_extracted", .bool true)
                :: shown ++ findingsMember content
              ∧ ∀ m ∈ shown, ∃ text, m = ("preview", .str text))
      (fun _ _ => True) s := by
  unfold skipIfArtifactExists readKey
  rw [ends_query]
  split
  · split
    · exact ends_pure.mpr ⟨rfl, fun _ hnone => by cases hnone⟩
    · exact Raising.ends_throw.mpr trivial
  · rename_i content hread
    rw [ends_bind]
    refine ends_preview fun shown hshown => ends_pure.mpr ⟨rfl, ?_⟩
    intro payload hpayload
    injection hpayload with hpayload
    exact ⟨row_of_read hread, shown, content, hpayload.symm, hshown⟩

theorem ends_rawBytes {att : IngestionAttachment}
    (h : Wrote sid s₀ s keys) :
    Ends (rawBytes att) (fun _ s' => Wrote sid s₀ s' keys)
      (fun _ _ => True) s := by
  unfold rawBytes
  rw [ends_query]
  split
  · exact ends_pure.mpr h
  · rw [ends_bind]
    refine (ends_emit h rfl).mono (fun _ s' h => ?_) fun _ _ _ => trivial
    rw [ends_query]
    split
    · exact ends_pure.mpr h
    · exact Raising.ends_throw.mpr trivial

end Writing

-- ===================================================================== calls

/-- The members in which a tool passes on a value. -/
def foreignMembers : List String :=
  ["content", "metadata", "summary", "findings"]

/-- The key is named inside a value that the output passes on. -/
def Foreign (output : ToolOutput) (k : String) : Prop :=
  ∃ ms name v, output = .json (.obj ms) ∧ name ∈ foreignMembers
    ∧ (name, v) ∈ ms ∧ Named v k

/-- The output names the key of what was not looked for, or not found. -/
inductive Unfound : StageCall → ToolOutput → String → Prop
  | read (key : String) (version : Option Int) :
      Unfound (.readArtifact key version) (notFoundOutput key) key
  | skipped {ms : List (String × Json)} (attachmentId k : String) :
      ("already_extracted", .bool true) ∈ ms →
      ("text_artifact_key", .str k) ∈ ms →
      Unfound (.runAttachmentExtraction attachmentId) (.json (.obj ms)) k

/-- The key is named in what the message of the output says. -/
def NamedIn (floatRepr : String → String) : ToolOutput → String → Prop
  | .json v, k => Named v k
  | .text s, k => Named ((Json.loads floatRepr s).getD (.str s)) k

/-- The tools that report the key they wrote as `artifact_key`. -/
def StageCall.reportsPlainly : StageCall → Bool
  | .analyzeImage _ | .writeDraft _ | .fillContractTemplate _ _ => true
  | _ => false

/-- What a call writes, and what its output names. -/
structure CallSpec (st : Stage) (call : StageCall) (s₀ : ToolState)
    (output : ToolOutput) (s : ToolState) : Prop where
  wrote : ∃ keys, Wrote st.sessionId s₀ s keys
    ∧ (call.reportsPlainly = false →
      ∀ k ∈ keys, NamedIn st.floatRepr output k)
  named : ∀ k, NamedIn st.floatRepr output k →
    Stands s.t.db st.sessionId k ∨ Foreign output k ∨ Unfound call output k
  plain : call.reportsPlainly = true →
    ∀ k, NamedIn st.floatRepr output k → Foreign output k

section Calls

variable {st : Stage} {caller : Caller} {s : ToolState} {k : String}
  {ref : ArtifactRef}

theorem named_refToDict : Named (refToDict ref) k
    ↔ k = ref.key ∨ Named (ref.summary.getD .null) k := by
  unfold refToDict
  simp (disch := decide)

/-- The dict of a row that was written. -/
theorem refToDict_spec {call : StageCall} {s₀ : ToolState} {row : Artifact}
    (hcall : call.reportsPlainly = false)
    (hwrote : Wrote st.sessionId s₀ s [row.key]) :
    CallSpec st call s₀ (.json (refToDict row.ref)) s := by
  refine ⟨⟨_, hwrote, fun _ k hk => ?_⟩, fun k hk => ?_,
    fun hplain => absurd (hcall.symm.trans hplain) (by decide)⟩
  · rw [List.mem_singleton.mp hk]
    exact named_refToDict.mpr (Or.inl rfl)
  · rcases named_refToDict.mp hk with rfl | hsummary
    · exact Or.inl (hwrote.stands_written (List.mem_singleton_self _))
    · refine Or.inr (Or.inl ⟨_, "summary", _, rfl, by decide, ?_, hsummary⟩)
      simp

/-- The commit after a write, and the reference that is returned. -/
theorem ends_committed {call : StageCall} {s₀ : ToolState} {row : Artifact}
    {key : String} (hcall : call.reportsPlainly = false)
    (hkey : row.key = key)
    (hwrote : Wrote st.sessionId s₀ s ([] ++ [key])) :
    Ends (emit .commit >>= fun _ => pure (.json (refToDict row.ref)))
      (fun output s' => CallSpec st call s₀ output s')
      (fun _ _ => True) s := by
  rw [ends_bind]
  refine (ends_emit hwrote rfl).mono (fun _ s₂ hwrote => ?_)
    fun _ _ _ => trivial
  rw [List.nil_append, ← hkey] at hwrote
  exact ends_pure.mpr (refToDict_spec hcall hwrote)

theorem ends_writeArtifactTool {input : ArtifactInput}
    (hcaller : caller.sessionId = st.sessionId) :
    Ends (writeArtifactTool st.env caller input) (fun output s' =>
      CallSpec st (.writeArtifact input) s output s')
      (fun _ _ => True) s := by
  unfold writeArtifactTool
  rw [ends_bind]
  exact (ends_writeArtifact Wrote.refl hcaller).mono
    (fun _ _ h => ends_committed rfl h.1 h.2) fun _ _ _ => trivial

theorem ends_updateArtifactTool {input : ArtifactInput} {merge : String}
    (hcaller : caller.sessionId = st.sessionId) :
    Ends (updateArtifactTool st.env caller input merge) (fun output s' =>
      CallSpec st (.updateArtifact input merge) s output s')
      (fun _ _ => True) s := by
  unfold updateArtifactTool updateArtifact
  rw [ends_bind, ends_query]
  split
  · exact Raising.ends_throw.mpr trivial
  · rename_i hmade
    obtain ⟨content, rfl⟩ := updateFrom_args hmade
    exact (ends_writeArtifact Wrote.refl hcaller).mono
      (fun _ _ h => ends_committed rfl h.1 h.2) fun _ _ _ => trivial

/-- A call that only reads. -/
theorem spec_of_reads {call : StageCall} {output : ToolOutput}
    (hcall : call.reportsPlainly = false)
    (h : ∀ k, NamedIn st.floatRepr output k → Stands s.t.db st.sessionId k
      ∨ Foreign output k ∨ Unfound call output k) :
    CallSpec st call s output s :=
  ⟨⟨[], Wrote.refl, fun _ _ hk => absurd hk List.not_mem_nil⟩, h,
    fun hplain => absurd (hcall.symm.trans hplain) (by decide)⟩

/-- The `str` of a dict is not read back: its keys are not in double
quotes. -/
theorem not_named_text {text : String}
    (h : ∃ rest, text.toList = '\x7b' :: '\x27' :: rest) :
    ¬NamedIn st.floatRepr (.text text) k := by
  obtain ⟨rest, h⟩ := h
  unfold NamedIn
  dsimp only
  rw [Json.loads_repr h]
  exact named_str

theorem named_readOutput {row : Artifact} {content : Content}
    (h : NamedIn st.floatRepr
      (readOutput st.env st.maxBytes st.sessionId row content) k) :
    k = row.key ∨ Foreign
      (readOutput st.env st.maxBytes st.sessionId row content) k := by
  unfold readOutput readTail at h ⊢
  dsimp only at h ⊢
  split at h
  · rename_i v truncated _
    have hrest : k = row.key ∨ Named v k ∨ Named row.metadata k := by
      change Named _ k at h
      simp only [named_append, named_optional] at h
      simpa (disch := decide) [or_assoc] using h
    rcases hrest with hkey | hcontent | hmetadata
    · exact Or.inl hkey
    · exact Or.inr ⟨_, "content", v, rfl, by decide, by simp, hcontent⟩
    · exact Or.inr ⟨_, "metadata", row.metadata, rfl, by decide, by simp,
        hmetadata⟩
  · refine absurd h (not_named_text ?_)
    simp only [String.toList_append]
    exact ⟨_, rfl⟩

theorem ends_readArtifactTool {key : String} {version : Option Int}
    (hcaller : caller.sessionId = st.sessionId) :
    Ends (readArtifactTool st.env st.maxBytes caller key version)
      (fun output s' => CallSpec st (.readArtifact key version) s
        output s') (fun _ _ => True) s := by
  have hfailed : CallSpec st (.readArtifact key version) s
      (notFoundOutput key) s := by
    refine spec_of_reads rfl fun k hk => ?_
    have hkey : k = key := by
      simpa (disch := decide) [NamedIn, notFoundOutput] using hk
    exact Or.inr (Or.inr (hkey ▸ .read key version))
  show CallSpec _ _ s _ s
  split
  · exact hfailed
  · dsimp only
    split
    · rename_i row content hread
      rw [hcaller] at hread ⊢
      obtain ⟨hrow, hsession, -⟩ := readResolved_ok hread
      refine spec_of_reads rfl fun k hk => ?_
      rcases named_readOutput hk with rfl | hforeign
      · exact Or.inl ⟨row, hrow, rfl, hsession⟩
      · exact Or.inr (Or.inl hforeign)
    · exact hfailed

theorem ends_listArtifactsTool {keyPrefix : Option String}
    (hcaller : caller.sessionId = st.sessionId) :
    Ends (listArtifactsTool caller keyPrefix) (fun output s' =>
      CallSpec st (.listArtifacts keyPrefix) s output s')
      (fun _ _ => True) s := by
  refine spec_of_reads rfl fun k hk => Or.inl ?_
  obtain ⟨item, hitem, hnamed⟩ := named_arr.mp hk
  obtain ⟨r, hr, rfl⟩ := List.mem_map.mp hitem
  have hlatest := (List.mem_insertionSort _).mp (List.mem_filter.mp hr).1
  obtain ⟨hrow, hown⟩ := List.mem_filter.mp hlatest
  have hkey : k = r.key := by
    simpa (disch := decide) [listEntry] using hnamed
  exact ⟨r, hrow, hkey.symm,
    Or.inl ((of_decide_eq_true hown).1.trans hcaller)⟩

/-- What is named in the findings that a skip passes on is foreign. -/
theorem foreign_findings {ms : List (String × Json)} {content : Content}
    (hms : ∀ m ∈ findingsMember content, m ∈ ms)
    (h : Named (.obj (findingsMember content)) k) :
    Foreign (.json (.obj ms)) k := by
  unfold findingsMember at h hms
  split at h
  · rename_i members
    rw [named_cons, or_iff_left named_nil,
      namedMember_plain (by decide)] at h
    exact ⟨ms, "findings", _, rfl, by decide,
      hms _ (List.mem_singleton_self _), h⟩
  · exact absurd h named_nil

/-- The preview that a skip shows names nothing. -/
theorem not_named_preview {shown : List (String × Json)}
    (h : ∀ m ∈ shown, ∃ text, m = ("preview", .str text)) :
    ¬Named (.obj shown) k := by
  rw [named_obj]
  rintro ⟨m, hm, hnamed⟩
  obtain ⟨text, rfl⟩ := h m hm
  simp (disch := decide) at hnamed

theorem ends_extractAttachment {att : IngestionAttachment} {ref : String}
    (hcaller : caller.sessionId = st.sessionId) :
    Ends (extractAttachment st.env caller att) (fun v s' =>
      CallSpec st (.runAttachmentExtraction ref) s (.json v) s')
      (fun _ _ => True) s := by
  unfold extractAttachment
  dsimp only
  rw [ends_bind]
  refine ends_skip.mono (fun skipped s₁ h => ?_) fun _ _ _ => trivial
  obtain ⟨rfl, hskip⟩ := h
  have hwrote : Wrote st.sessionId s₁ s₁ [] := .refl
  cases skipped with
  | some payload =>
      obtain ⟨⟨r, hr, hsid, hkey⟩, shown, content, rfl, hshown⟩ :=
        hskip _ rfl
      have hstands : Stands s₁.t.db st.sessionId r.key :=
        ⟨r, hr, rfl, Or.inl (hsid.trans hcaller)⟩
      rw [hkey] at hstands
      refine ends_pure.mpr ⟨⟨[], hwrote, ?_⟩, fun k hk => ?_,
        fun hplain => by cases hplain⟩
      · exact fun _ _ hk => absurd hk List.not_mem_nil
      · have hcases : Named (.obj (findingsMember content)) k
            ∨ k = "extracted_text/"
              ++ (if att.name = "" then "attachment" else att.name)
            ∨ k = "extracted_data/"
              ++ (if att.name = "" then "attachment" else att.name) := by
          change Named _ k at hk
          simpa (disch := decide) [named_append,
            not_named_preview hshown] using hk
        rcases hcases with hfound | rfl | rfl
        · refine Or.inr (Or.inl (foreign_findings (fun m hm => ?_) hfound))
          simp [hm]
        · refine Or.inr (Or.inr (.skipped _ _ ?_ ?_))
          · simp
          · simp
        · exact Or.inl hstands
  | none =>
      dsimp only
      rw [ends_bind]
      refine (ends_rawBytes hwrote).mono (fun data s₂ hwrote => ?_)
        fun _ _ _ => trivial
      rw [ends_query, ends_bind]
      refine ends_attempt fun result _ => ?_
      rw [ends_bind]
      refine (ends_writeArtifact hwrote hcaller).mono
        (fun textRow s₃ h => ?_) fun _ _ _ => trivial
      obtain ⟨htext, hwrote⟩ := h
      rw [ends_bind]
      refine (ends_writeArtifact hwrote hcaller).mono
        (fun dataRow s₄ h => ?_) fun _ _ _ => trivial
      obtain ⟨hdata, hwrote⟩ := h
      rw [ends_bind]
      refine (ends_emit hwrote rfl).mono (fun _ s₅ hwrote => ?_)
        fun _ _ _ => trivial
      rw [← htext, ← hdata] at hwrote
      have hnamed : ∀ k, NamedIn st.floatRepr (.json (.obj
          [("text_artifact_key", .str textRow.key),
            ("data_artifact_key", .str dataRow.key),
            ("source_file", .str
              (if att.name = "" then "attachment" else att.name)),
            ("preview", .str (prefixOf 500
              (if result.ok then result.text else "")))])) k
          ↔ k ∈ [] ++ [textRow.key] ++ [dataRow.key] := by
        intro k
        change Named _ k ↔ _
        simp (disch := decide)
      refine ends_pure.mpr ⟨⟨_, hwrote, fun _ k hk => ?_⟩, fun k hk => ?_,
        fun hplain => by cases hplain⟩
      · exact (hnamed k).mpr hk
      · exact Or.inl (hwrote.stands_written ((hnamed k).mp hk))

/-- The three tools whose output does not name what they wrote. -/
theorem spec_of_plain {call : StageCall} {s₀ : ToolState}
    {output : ToolOutput} {keys : List String}
    (hplain : call.reportsPlainly = true)
    (hwrote : Wrote st.sessionId s₀ s keys)
    (h : ∀ k, NamedIn st.floatRepr output k → Foreign output k) :
    CallSpec st call s₀ output s :=
  ⟨⟨keys, hwrote, fun hnot => absurd (hplain.symm.trans hnot) (by decide)⟩,
    fun k hk => Or.inr (Or.inl (h k hk)), fun _ => h⟩

theorem ends_analyzeAttachment {att : IngestionAttachment} {ref : String}
    (hcaller : caller.sessionId = st.sessionId) :
    Ends (analyzeAttachment st.env caller att) (fun v s' =>
      CallSpec st (.analyzeImage ref) s (.json v) s')
      (fun _ _ => True) s := by
  unfold analyzeAttachment
  dsimp only
  rw [ends_bind]
  refine ends_skip.mono (fun skipped s₁ h => ?_) fun _ _ _ => trivial
  obtain ⟨rfl, hskip⟩ := h
  have hwrote : Wrote st.sessionId s₁ s₁ [] := .refl
  cases skipped with
  | some payload =>
      obtain ⟨-, shown, content, rfl, hshown⟩ := hskip _ rfl
      refine ends_pure.mpr (spec_of_plain rfl hwrote fun k hk => ?_)
      have hfound : Named (.obj (findingsMember content)) k := by
        change Named _ k at hk
        simpa (disch := decide) [named_append,
          not_named_preview hshown] using hk
      exact foreign_findings (fun m hm => by simp [hm]) hfound
  | none =>
      dsimp only
      rw [ends_bind]
      refine (ends_rawBytes hwrote).mono (fun data s₂ hwrote => ?_)
        fun _ _ _ => trivial
      rw [ends_query, ends_bind]
      refine ends_attempt fun found _ => ?_
      rw [ends_bind]
      refine (ends_writeArtifact hwrote hcaller).mono
        (fun row s₃ h => ?_) fun _ _ _ => trivial
      rw [ends_bind]
      refine (ends_emit h.2 rfl).mono (fun _ s₄ hwrote => ?_)
        fun _ _ _ => trivial
      refine ends_pure.mpr (spec_of_plain rfl hwrote fun k hk => ?_)
      change Named _ k at hk
      have hfindings : Named (normalizedFindings st.env
          (if att.name = "" then "image" else att.name) found) k := by
        simpa (disch := decide) using hk
      exact ⟨_, "findings", _, rfl, by decide, by simp, hfindings⟩

/-- No attachment was found. -/
theorem spec_of_unresolved {call : StageCall} {text : String} :
    CallSpec st call s (.json (.obj [("error", .str text)])) s := by
  have hnone : ∀ k, ¬NamedIn st.floatRepr
      (.json (.obj [("error", .str text)])) k := by
    intro k hk
    change Named _ k at hk
    simp (disch := decide) at hk
  exact ⟨⟨[], Wrote.refl, fun _ _ hk => absurd hk List.not_mem_nil⟩,
    fun k hk => absurd hk (hnone k), fun _ k hk => absurd hk (hnone k)⟩

theorem ends_runAttachmentExtraction {ref : String}
    (hcaller : caller.sessionId = st.sessionId) :
    Ends (runAttachmentExtraction st.env caller ref) (fun v s' =>
      CallSpec st (.runAttachmentExtraction ref) s (.json v) s')
      (fun _ _ => True) s := by
  unfold runAttachmentExtraction
  rw [ends_query]
  split
  · exact ends_pure.mpr spec_of_unresolved
  · exact ends_extractAttachment hcaller

theorem ends_analyzeImage {ref : String}
    (hcaller : caller.sessionId = st.sessionId) :
    Ends (analyzeImage st.env caller ref) (fun v s' =>
      CallSpec st (.analyzeImage ref) s (.json v) s')
      (fun _ _ => True) s := by
  unfold analyzeImage
  rw [ends_query]
  split
  · exact ends_pure.mpr spec_of_unresolved
  · exact ends_analyzeAttachment hcaller

/-- The row of a draft is in a table that no artifact is in. -/
theorem ends_insertDraft {sid : Uuid} {s₀ : ToolState}
    {keys : List String} {draft : Draft} (h : Wrote sid s₀ s keys) :
    Ends (insertDraft draft) (fun _ s' => Wrote sid s₀ s' keys)
      (fun _ _ => True) s := by
  unfold insertDraft
  rw [ends_bind, Raising.ends_get]
  split
  · exact Raising.ends_throw.mpr trivial
  · exact Raising.ends_set.mpr ⟨h.effects, h.frame, h.kept, h.stored⟩

theorem ends_writeDraft {input : DraftInput}
    (hcaller : caller.sessionId = st.sessionId) :
    Ends (writeDraft st.env caller input) (fun output s' =>
      CallSpec st (.writeDraft input) s output s')
      (fun _ _ => True) s := by
  unfold writeDraft
  rw [ends_query]
  split
  · exact Raising.ends_throw.mpr trivial
  · rw [ends_bind]
    refine (ends_writeArtifact Wrote.refl hcaller).mono
      (fun row s₁ h => ?_) fun _ _ _ => trivial
    rw [ends_bind]
    refine (ends_insertDraft h.2).mono (fun _ s₂ hwrote => ?_)
      fun _ _ _ => trivial
    rw [ends_bind]
    refine (ends_emit hwrote rfl).mono (fun _ s₃ hwrote => ?_)
      fun _ _ _ => trivial
    refine ends_pure.mpr (spec_of_plain rfl hwrote fun k hk => ?_)
    change Named _ k at hk
    simp (disch := decide) at hk

@[simp] theorem named_supportedTypes : ¬Named supportedTypes k := by
  unfold supportedTypes
  rw [named_arr]
  rintro ⟨item, hitem, hnamed⟩
  obtain ⟨ct, -, rfl⟩ := List.mem_map.mp hitem
  exact named_str hnamed

@[simp] theorem named_fieldsJson {ct : Contracts.ContractType} :
    ¬Named ct.fieldsJson k := by
  unfold Contracts.ContractType.fieldsJson
  rw [named_arr]
  rintro ⟨item, hitem, hnamed⟩
  obtain ⟨field, -, rfl⟩ := List.mem_map.mp hitem
  simp (disch := decide) at hnamed

@[simp] theorem named_listContractTypes :
    ¬Named Contracts.listContractTypes k := by
  unfold Contracts.listContractTypes
  rw [named_arr]
  rintro ⟨item, hitem, hnamed⟩
  obtain ⟨ct, -, rfl⟩ := List.mem_map.mp hitem
  simp (disch := decide) at hnamed

theorem ends_fillContractTemplate {contractType : String}
    {fieldValues : List (String × Json)}
    (hcaller : caller.sessionId = st.sessionId) :
    Ends (fillContractTemplate st.env caller contractType fieldValues)
      (fun v s' => CallSpec st
        (.fillContractTemplate contractType fieldValues) s (.json v) s')
      (fun _ _ => True) s := by
  unfold fillContractTemplate
  split
  · refine ends_pure.mpr (spec_of_plain rfl Wrote.refl fun k hk => ?_)
    change Named _ k at hk
    simp (disch := decide) at hk
  · dsimp only
    split
    · refine ends_pure.mpr (spec_of_plain rfl Wrote.refl fun k hk => ?_)
      change Named _ k at hk
      simp (disch := decide) at hk
    · split
      · refine ends_pure.mpr (spec_of_plain rfl Wrote.refl fun k hk => ?_)
        change Named _ k at hk
        simp (disch := decide) at hk
      · rw [ends_bind]
        refine (ends_writeArtifact Wrote.refl hcaller).mono
          (fun row s₁ h => ?_) fun _ _ _ => trivial
        rw [ends_bind]
        refine (ends_emit h.2 rfl).mono (fun _ s₂ hwrote => ?_)
          fun _ _ _ => trivial
        refine ends_pure.mpr (spec_of_plain rfl hwrote fun k hk => ?_)
        change Named _ k at hk
        simp (disch := decide) at hk

/-- What a call writes, and what it names. -/
theorem perform_ends (call : StageCall)
    (hcaller : caller.sessionId = st.sessionId) :
    Ends (call.perform st caller) (fun output s' =>
      CallSpec st call s output s') (fun _ _ => True) s := by
  cases call with
  | writeArtifact input => exact ends_writeArtifactTool hcaller
  | updateArtifact input merge => exact ends_updateArtifactTool hcaller
  | readArtifact key version => exact ends_readArtifactTool hcaller
  | listArtifacts keyPrefix => exact ends_listArtifactsTool hcaller
  | runAttachmentExtraction ref =>
      exact ends_map.mpr (ends_runAttachmentExtraction hcaller)
  | analyzeImage ref => exact ends_map.mpr (ends_analyzeImage hcaller)
  | writeDraft input => exact ends_writeDraft hcaller
  | fillContractTemplate contractType fieldValues =>
      exact ends_map.mpr (ends_fillContractTemplate hcaller)
  | listContractTypes =>
      refine ends_pure.mpr (spec_of_reads rfl fun k hk => ?_)
      change Named contractTypesResult k at hk
      unfold contractTypesResult at hk
      simp (disch := decide) at hk
  | getContractRequirements contractType =>
      refine ends_pure.mpr (spec_of_reads rfl fun k hk => ?_)
      change Named (getContractRequirements _ _) k at hk
      unfold getContractRequirements at hk
      split at hk
      · simp (disch := decide) at hk
      · simp (disch := decide) at hk

end Calls

end LegalBot.Stages
