/-
Which human input reaches the agent unchecked.

# What is forwarded

A resolution hands the agent a payload of the human in two places: in
the resume value (the answer, or the arguments of an edited tool call)
and in the report (`mergedAnswer`). `resolve` validates the answer of an
unskipped information request against the schema of its row and nothing
else: the arguments of an edit are not validated, the answer of a
skipped request is merged all the same, and a request without an answer
passes.

# The schema of a row

`open` stores a dict or no schema at all (`schemasAreDicts`). A dict
that is empty is falsy and is not validated against; that this loses
nothing is what the hypothesis on the validator says: the empty schema
accepts every value.
-/
import LegalBot.Interrupts.ProvidedFields
import LegalBot.Orchestrator.Effects
import LegalBot.Orchestrator.Invariants

namespace LegalBot

open Relational (HasKey Table)

-- ============================================================== statements

/-- The payload of the human inside the resume value. -/
def InterruptResolution.resumedPayload :
    InterruptResolution → Option (List (String × Json))
  | .tool .edit editedArgs _ _ => editedArgs
  | .info answer false _ _ => answer
  | _ => none

/-- A value validates against the schema of a row. -/
def Conforms (valid : Json → Json → Bool) (schema : Option Json)
    (members : List (String × Json)) : Prop :=
  ∀ S, schema = some S → valid S (.obj members) = true

/-- Everything the human supplied and `resolve` forwards is validated; a
skipped request forwards no answer, an unskipped one has one. -/
structure OnlyValidated (valid : Json → Json → Bool)
    (schema : Option Json) (resolution : InterruptResolution) : Prop where
  resumed : ∀ payload, resolution.resumedPayload = some payload →
    Conforms valid schema payload
  merged : ∀ answer, resolution.mergedAnswer = some answer →
    Conforms valid schema answer
  skipped : resolution.skipped = true →
    resolution.resumedPayload = none ∧ resolution.mergedAnswer = none
  answered : resolution.answerless = false

/-- The bodies for which the checks of `resolve` are enough. -/
def InterruptResolution.Sound (valid : Json → Json → Bool)
    (schema : Option Json) : InterruptResolution → Prop
  | .tool .edit (some args) _ _ => Conforms valid schema args
  | .info answer true _ _ => answer.getD [] = []
  | .info answer false _ _ => answer.isSome
  | _ => True

-- ============================================================== the schema

/-- A stored schema is a dict. -/
def SchemaIsDict (schema : Option Json) : Prop :=
  ∀ S, schema = some S → ∃ ms, S = .obj ms

theorem memberDict?_isDict (members : List (String × Json)) (k : String) :
    SchemaIsDict (memberDict? members k) := by
  intro S hS
  unfold memberDict? at hS
  split at hS
  · injection hS with hS
    exact ⟨_, hS.symm⟩
  · cases hS

/-- Both envelope shapes give a dict or no schema. -/
theorem normalizeInterruptEnvelope_schema {envelope : List (String × Json)}
    {kind : InterruptKind} {payload : Json} {schema : Option Json}
    (h : normalizeInterruptEnvelope envelope = .ok (kind, payload, schema)) :
    SchemaIsDict schema := by
  unfold normalizeInterruptEnvelope at h
  simp only at h
  split at h
  · cases hf : firstConfig (if (memberOrNull envelope
        "review_configs").truthy = true then
        memberOrNull envelope "review_configs" else .arr []) with
    | error e =>
        rw [hf] at h
        cases h
    | ok first =>
        rw [hf] at h
        injection h with h
        injection h with _ h
        injection h with _ h
        exact h ▸ memberDict?_isDict _ _
  · injection h with h
    injection h with _ h
    injection h with _ h
    exact h ▸ memberDict?_isDict _ _

section Schemas

variable {env : Env} {s s' : State} {a : Action}

/-- The rows have dicts or no schema, and so have the rows that are
about to be inserted. -/
structure SchemasAreDicts (s : State) : Prop where
  rows : ∀ k r, s.db.interrupts.get k = some r → SchemaIsDict r.schema
  points : ∀ {tid inv slot kind payload schema},
    (s.tasks tid).pc
      = .worker (.invoke inv slot (.openInterrupt kind payload schema)) →
    SchemaIsDict schema

/-- An insert is the request of a call that is about to make it. -/
theorem openInterrupt_point {tid : Nat} {reply : Reply} {ok : Pc}
    {raised : String → Pc} {id sid : Uuid} {rid : Option Uuid}
    {kind : InterruptKind} {payload : Json} {schema : Option Json}
    (h : s.request env tid reply = some
      (.commit (.openInterrupt id sid rid kind payload schema) ok raised)) :
    ∃ inv slot, (s.tasks tid).pc
        = .worker (.invoke inv slot (.openInterrupt kind payload schema))
      ∧ sid = inv.sessionId ∧ rid = some inv.runId := by
  obtain ⟨inv, slot, stage, ok₀, raised₀, hpc, hr, -⟩ :=
    request_call_commit h rfl
  cases stage with
  | openInterrupt k p sch =>
      simp only [Stage.request] at hr
      split at hr
      · cases hr
        exact ⟨inv, slot, hpc, rfl, rfl⟩
      · cases hr
  | _ =>
      unfold Stage.request at hr
      grind

theorem apply_schemasAreDicts (hstep : apply env a s = some s')
    (h : SchemasAreDicts s) : SchemasAreDicts s' := by
  constructor
  · intro k r hr
    rcases apply_db hstep with ⟨hdb, -, -⟩ | ⟨tx, htx, ⟨hdb, -⟩ | ⟨hc, -⟩⟩
    · rw [hdb] at hr
      exact h.rows k r hr
    · rw [hdb] at hr
      exact h.rows k r hr
    · rcases (commit_effects hc).interrupts.origin hr with
        ⟨r₀, hr₀, hasks⟩ | ⟨-, id, sid, rid, kind, payload, schema, rfl, rfl⟩
      · rw [hasks.schema]
        exact h.rows k r₀ hr₀
      · obtain ⟨tid, reply, ok, raised, -, hreq⟩ := committing_request htx
        obtain ⟨inv, slot, hpc, -, -⟩ := openInterrupt_point hreq
        exact h.points hpc
  · intro tid inv slot kind payload schema hpc
    rcases apply_call hstep hpc with
      heq | ⟨reply, w, r, -, -, -, -, ⟨stage₀, r₀, -, -, hr₀, -, hl⟩ |
        ⟨hstage, -⟩⟩
    · rw [heq] at hpc
      exact h.points hpc
    · obtain ⟨-, -, members, rest, -, hn⟩ :=
        Stage.request_openInterrupt hr₀ hl
      exact normalizeInterruptEnvelope_schema hn
    · cases hstage

theorem reaches_schemasAreDicts {G : Action → State → Prop}
    (h : Reaches env G s) : SchemasAreDicts s := by
  refine Lts.Reachable.invariant ?_ ?_ h
  · constructor
    · intro k r hr
      cases hr
    · intro tid inv slot kind payload schema hpc
      cases hpc
  · intro s a s' _ hd _ hstep
    exact apply_schemasAreDicts hstep hd

end Schemas

-- ============================================================== the checks

section Checks

variable {valid : Json → Json → Bool} {interrupts : Table InterruptRequest}
  {sid : Uuid} {resolution : InterruptResolution}
  {current : InterruptRequest} {value : Json}

/-- What the resume value carries of the human. -/
theorem resumeValue_payload {payload : List (String × Json)}
    (h : resolution.resumedPayload = some payload)
    (request : InterruptRequest) :
    resumeValue resolution request = .obj payload
      ∨ resumeValue resolution request = .obj [("decisions", .arr [.obj
          [("type", .str "edit"), ("edited_action", .obj
            [("name", .str ((firstActionName request).getD "")),
              ("args", .obj payload)])]])] := by
  unfold InterruptResolution.resumedPayload at h
  split at h
  · subst h
    exact Or.inr rfl
  · subst h
    exact Or.inl rfl
  · cases h

/-- An answer that is not skipped was validated, unless the schema is
falsy. -/
theorem checkResolution_answer {answer : List (String × Json)}
    {reason : Option String} {edits : List ArtifactEdit} {S : Json}
    (h : checkResolution valid (currentForSession interrupts sid)
      (.info (some answer) false reason edits) = .ok (current, value))
    (hS : current.schema = some S) (ht : S.truthy = true) :
    valid S (.obj answer) = true := by
  obtain ⟨hcur, -⟩ := checkResolution_ok h
  rw [hcur] at h
  unfold checkResolution at h
  simp only [hS, ht, Bool.true_and] at h
  split at h
  · cases h
  · split at h
    · cases h
    · rename_i hvalid
      simpa using hvalid

/-- A body that forwards nothing and is not answerless. -/
theorem OnlyValidated.of_none {schema : Option Json}
    (hp : resolution.resumedPayload = none)
    (hm : resolution.mergedAnswer = none)
    (ha : resolution.answerless = false) :
    OnlyValidated valid schema resolution := by
  refine ⟨fun payload h => ?_, fun answer h => ?_, fun _ => ⟨hp, hm⟩, ha⟩
  · rw [hp] at h
    cases h
  · rw [hm] at h
    cases h

/-- The accepted body is sound exactly when everything it forwards is
validated. -/
theorem onlyValidated_iff (hempty : ∀ v, valid (.obj []) v = true)
    (hdict : SchemaIsDict current.schema)
    (h : checkResolution valid (currentForSession interrupts sid)
      resolution = .ok (current, value)) :
    OnlyValidated valid current.schema resolution
      ↔ resolution.Sound valid current.schema := by
  cases resolution with
  | tool decision editedArgs reason edits =>
      cases decision with
      | edit =>
          cases editedArgs with
          | none => exact ⟨fun _ => trivial, fun _ => .of_none rfl rfl rfl⟩
          | some args =>
              constructor
              · exact fun hv => hv.resumed args rfl
              · intro hs
                refine ⟨fun payload hp => ?_, (fun _ h => by cases h),
                  (fun h => by cases h), rfl⟩
                injection hp with hp
                exact hp ▸ hs
      | approve => exact ⟨fun _ => trivial, fun _ => .of_none rfl rfl rfl⟩
      | reject => exact ⟨fun _ => trivial, fun _ => .of_none rfl rfl rfl⟩
  | review decision notes edits =>
      exact ⟨fun _ => trivial, fun _ => .of_none rfl rfl rfl⟩
  | info answer skipped reason edits =>
      cases skipped with
      | true =>
          have hmerged : (InterruptResolution.info answer true reason
              edits).mergedAnswer = none ↔ answer.getD [] = [] := by
            cases answer with
            | none => simp [InterruptResolution.mergedAnswer]
            | some ms => simp [InterruptResolution.mergedAnswer]
          constructor
          · exact fun hv => hmerged.mp (hv.skipped rfl).2
          · intro hs
            refine .of_none rfl (hmerged.mpr hs) ?_
            cases answer <;> rfl
      | false =>
          cases answer with
          | none =>
              constructor
              · intro hv
                cases hv.answered
              · intro hs
                cases hs
          | some ms =>
              -- the one payload `resolve` validates
              have hconforms : Conforms valid current.schema ms := by
                intro S hS
                obtain ⟨members, rfl⟩ := hdict S hS
                cases members with
                | nil => exact hempty _
                | cons m rest => exact checkResolution_answer h hS rfl
              refine ⟨fun _ => rfl, fun _ => ⟨fun payload hp => ?_,
                fun payload hp => ?_, (fun h => by cases h), rfl⟩⟩
              · injection hp with hp
                exact hp ▸ hconforms
              · unfold InterruptResolution.mergedAnswer at hp
                simp only at hp
                split at hp
                · cases hp
                · injection hp with hp
                  exact hp ▸ hconforms

end Checks

-- ================================================================= resolve

/-- A body that `resolve` accepts passed its checks. -/
theorem resolveBody_checked {valid : Json → Json → Bool} {rt : Runtime}
    {svc : ArtifactService}
    {dictOf : Json → Option (List (String × Json))}
    {interrupts : Table InterruptRequest} {artifacts : Table Artifact}
    {blobs : Blobs} {sid : Uuid} {resolution : InterruptResolution}
    {resolvedBy : Option String} {draw : Nat → Uuid} {out : Resolved}
    (h : resolveBody valid rt svc dictOf interrupts artifacts blobs sid
      resolution resolvedBy draw = .ok out) :
    checkResolution valid (currentForSession interrupts sid) resolution
      = .ok (out.current, out.resumeValue) := by
  unfold resolveBody at h
  split at h
  · cases h
  · rename_i current value hcheck
    simp only at h
    split at h
    · cases h
    · injection h with h
      subst h
      exact hcheck

/-- The merge never raises: without edits, the checks decide. -/
theorem resolveBody_accepts {valid : Json → Json → Bool} {rt : Runtime}
    {svc : ArtifactService}
    {dictOf : Json → Option (List (String × Json))}
    {interrupts : Table InterruptRequest} {artifacts : Table Artifact}
    {blobs : Blobs} {sid : Uuid} {resolution : InterruptResolution}
    {resolvedBy : Option String} {draw : Nat → Uuid}
    {current : InterruptRequest} {value : Json}
    (h : checkResolution valid (currentForSession interrupts sid) resolution
      = .ok (current, value)) (hedits : resolution.artifactEdits = []) :
    ∃ out, resolveBody valid rt svc dictOf interrupts artifacts blobs sid
        resolution resolvedBy draw = .ok out ∧ out.current = current := by
  unfold resolveBody
  rw [h, hedits]
  exact ⟨_, rfl, rfl⟩

/-- In every state reached, whatever `resolve` accepts for the pending
interrupt of a session forwards validated input only, exactly when the
body is sound. -/
theorem only_validated_iff {env : Env} {s : State}
    (h : Reaches env Lts.Always s)
    (hempty : ∀ v, env.valid (.obj []) v = true) {rt : Runtime}
    {svc : ArtifactService}
    {dictOf : Json → Option (List (String × Json))} {blobs : Blobs}
    {sid : Uuid} {resolution : InterruptResolution}
    {resolvedBy : Option String} {draw : Nat → Uuid} {out : Resolved}
    (hok : resolveBody env.valid rt svc dictOf s.db.interrupts
      s.db.artifacts blobs sid resolution resolvedBy draw = .ok out) :
    OnlyValidated env.valid out.current.schema resolution
      ↔ resolution.Sound env.valid out.current.schema := by
  have hcheck := resolveBody_checked hok
  obtain ⟨hcur, -⟩ := checkResolution_ok hcheck
  obtain ⟨hget, -, -⟩ := currentForSession_some hcur
  exact onlyValidated_iff hempty
    ((reaches_schemasAreDicts h).rows _ _ hget) hcheck

-- =============================================================== scenarios

/-- A schema validator on the `required` keyword alone. -/
def requiredMembers (schema v : Json) : Bool :=
  match Json.getMember schema.members "required" with
  | some (.arr names) => names.all fun name =>
      match name with
      | .str k => (Json.getMember v.members k).isSome
      | _ => true
  | _ => true

def Env.required : Env := ⟨Settings.default, requiredMembers⟩

/-- `required: [name]`. -/
def requires (name : String) : Json :=
  .obj [("required", .arr [.str name])]

/-- Run 11 is interrupted with this envelope: interrupt 30 is open on
session 10. -/
def askedWith (envelope : Json) : List Action :=
  firstStart ++
  [.advance 1 .ok, .advance 1 .ok, .advance 1 .ok,
    .advance 1 (.output ⟨[], none⟩), .advance 1 (.fresh [] ""),
    .advance 1 (.interrupts [envelope]), .advance 1 .ok,
    .advance 1 (.interrupts [envelope]), .advance 1 (.fresh [30] ""),
    .advance 1 .ok]

/-- `ask_human` with a schema that requires a case number. -/
def caseQuestion : Json :=
  .obj [("kind", .str "information_request"),
    ("payload", .obj [("schema", requires "case_number")])]

/-- A gated tool whose arguments must name a recipient. -/
def sendApproval : Json :=
  .obj [("action_requests", .arr [.obj [("name", .str "send_email")]]),
    ("review_configs", .arr [.obj [("args_schema", requires "to")]])]

/-- `resolve` on session 10, where nothing is stored yet. -/
def resolveFirst (s : State) (resolution : InterruptResolution) :
    Except (ResolveError ⊕ ArtifactError) Resolved :=
  resolveBody Env.required.valid Runtime.sample ArtifactService.default
    (fun _ => none) s.db.interrupts s.db.artifacts (fun _ => none) 10
    resolution none (fun n => 50 + n)

/-- What the checks of `resolve` on session 10 return. -/
def checkFirst (s : State) (resolution : InterruptResolution) :
    Option InterruptRequest :=
  (checkResolution Env.required.valid
    (currentForSession s.db.interrupts 10) resolution).toOption.map Prod.fst

theorem resolveFirst_accepts {s : State} {resolution : InterruptResolution}
    {current : InterruptRequest}
    (h : checkFirst s resolution = some current)
    (hedits : resolution.artifactEdits = []) :
    ∃ out, resolveFirst s resolution = .ok out ∧ out.current = current := by
  obtain ⟨⟨request, value⟩, hcheck, rfl⟩ := Option.map_eq_some_iff.mp h
  have hok : checkResolution Env.required.valid
      (currentForSession s.db.interrupts 10) resolution
      = .ok (request, value) := by
    cases hr : checkResolution Env.required.valid
        (currentForSession s.db.interrupts 10) resolution with
    | error e =>
        rw [hr] at hcheck
        cases hcheck
    | ok r =>
        rw [hr] at hcheck
        injection hcheck with hcheck
        rw [hcheck]
  exact resolveBody_accepts hok hedits

/-- An answer with a case number is validated and forwarded. -/
theorem case_number_validated :
    ∃ s out, Lts.run (apply Env.required) State.init
        (askedWith caseQuestion) = some s
      ∧ resolveFirst s (.info (some [("case_number", .str "A-123")]) false
        none []) = .ok out
      ∧ OnlyValidated Env.required.valid out.current.schema
        (.info (some [("case_number", .str "A-123")]) false none []) := by
  obtain ⟨s, hs⟩ := Option.isSome_iff_exists.mp
    (show (Lts.run (apply Env.required) State.init
      (askedWith caseQuestion)).isSome by decide +kernel)
  have hcheck : ((Lts.run (apply Env.required) State.init
      (askedWith caseQuestion)).bind fun s => checkFirst s
        (.info (some [("case_number", .str "A-123")]) false none [])).isSome
      = true := by
    decide +kernel
  rw [hs, Option.bind_some] at hcheck
  obtain ⟨current, hcurrent⟩ := Option.isSome_iff_exists.mp hcheck
  obtain ⟨out, hout, -⟩ := resolveFirst_accepts hcurrent rfl
  have hiff := only_validated_iff (Lts.reachable_of_run .init hs)
    (fun _ => rfl) hout
  have hsound : (InterruptResolution.info
      (some [("case_number", .str "A-123")]) false none []).Sound
      Env.required.valid out.current.schema := rfl
  exact ⟨s, out, hs, hout, hiff.mpr hsound⟩

/-- The arguments of an edit are forwarded without the recipient their
schema requires. -/
theorem edited_args_not_validated :
    ¬ ∀ s resolution out, Reaches Env.required Lts.Always s →
      resolveFirst s resolution = .ok out →
      OnlyValidated Env.required.valid out.current.schema resolution := by
  intro h
  obtain ⟨s, hs⟩ := Option.isSome_iff_exists.mp
    (show (Lts.run (apply Env.required) State.init
      (askedWith sendApproval)).isSome by decide +kernel)
  have hcheck : ((Lts.run (apply Env.required) State.init
      (askedWith sendApproval)).bind fun s => (checkFirst s
        (.tool .edit (some [("cc", .str "Ana")]) none [])).map
          (·.schema)) = some (some (requires "to")) := by
    decide +kernel
  rw [hs, Option.bind_some] at hcheck
  obtain ⟨current, hcurrent, hschema⟩ := Option.map_eq_some_iff.mp hcheck
  obtain ⟨out, hout, rfl⟩ := resolveFirst_accepts hcurrent rfl
  have hvalid := (h s _ out (Lts.reachable_of_run .init hs)
    hout).resumed [("cc", .str "Ana")] rfl (requires "to") hschema
  revert hvalid
  decide

end LegalBot
