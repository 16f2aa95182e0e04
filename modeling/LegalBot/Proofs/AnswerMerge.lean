/-
Is an accepted answer ever lost from the report?

# What merging promises

The report before the merge is an object, or there is none
(`previousReport`); its provided fields are an object, or there are none.
`AnswerKept` says that the latest report afterwards has those fields
overridden by the answer and everything else as it was (`Overrides`).

# Where the answer goes

`_merge_contract_provided_fields` catches what its read and its write
raise, and `resolve` goes on. A report that cannot be read, a payload
that `dict` refuses and a key at its version cap each drop the answer; a
report that is no object is replaced by one that holds the answer alone.
So the answer is kept when the report and its two dicts are objects or
absent and there is room for a version, or when nothing had to change.
-/
import LegalBot.Json.Members
import LegalBot.Proofs.ArtifactEdits

namespace LegalBot

open Relational (HasKey Table)
open VersionChain (Versioned rowsOf)

-- ============================================================== statements

/-- The report to merge into: an object, or none yet. -/
def previousReport (rt : Runtime) (store : Table Artifact × Blobs)
    (sid : Uuid) : Option (List (String × Json)) :=
  match read rt store.1.rows store.2 sid (.key "analysis/report") none with
  | .ok (_, .value (.obj ms)) => some ms
  | .ok _ => none
  | .error e => if e.isNotFound = true then some [] else none

/-- A member that is an object; an absent or empty one has no members. -/
def dictMember (ms : List (String × Json)) (k : String) :
    Option (List (String × Json)) :=
  match (Json.getMember ms k).getD .null with
  | .obj members => some members
  | v => if v.truthy = true then none else some []

/-- `ms'` is `ms` with its provided fields overridden by the answer. -/
structure Overrides (ms ms' answer payload fields payload'
    fields' : List (String × Json)) : Prop where
  payload_of : dictMember ms "action_payload" = some payload
  fields_of : dictMember payload "provided_fields" = some fields
  payload_of' : Json.getMember ms' "action_payload"
    = some (.obj payload')
  fields_of' : Json.getMember payload' "provided_fields"
    = some (.obj fields')
  overridden : ∀ k, Json.getMember fields' k
    = (Json.getMember answer k).or (Json.getMember fields k)
  report : ∀ k, k ≠ "action_payload" →
    Json.getMember ms' k = Json.getMember ms k
  others : ∀ k, k ≠ "provided_fields" →
    Json.getMember payload' k = Json.getMember payload k

/-- The latest report has the provided fields of the one before,
overridden by the answer; an empty answer changes nothing. -/
def AnswerKept (rt : Runtime) (sid : Uuid)
    (answer : List (String × Json))
    (store store' : Table Artifact × Blobs) : Prop :=
  (answer = [] ∧ store' = store)
    ∨ (answer ≠ [] ∧ ∃ ms ms' row, previousReport rt store sid = some ms
      ∧ read rt store'.1.rows store'.2 sid (.key "analysis/report") none
        = .ok (row, .value (.obj ms'))
      ∧ ∃ payload fields payload' fields',
        Overrides ms ms' answer payload fields payload' fields')

/-- The provided fields of a report, all of them objects. -/
def providedFields (ms : List (String × Json)) :
    Option (List (String × Json)) :=
  match Json.getMember ms "action_payload" with
  | some (.obj payload) =>
      match Json.getMember payload "provided_fields" with
      | some (.obj fields) => some fields
      | _ => none
  | _ => none

/-- The report takes the answer: it and its dicts are objects or absent,
and there is room for a version unless the fields are there already. -/
def ReportTakes (rt : Runtime) (svc : ArtifactService) (sid : Uuid)
    (answer : List (String × Json))
    (store : Table Artifact × Blobs) : Prop :=
  answer = [] ∨ ∃ ms payload fields, previousReport rt store sid = some ms
    ∧ dictMember ms "action_payload" = some payload
    ∧ dictMember payload "provided_fields" = some fields
    ∧ (nextVersion store.1.rows sid "analysis/report" ≤ svc.versionCap
      ∨ ∃ there, providedFields ms = some there
        ∧ ∀ k v, Json.getMember answer k = some v →
          Json.getMember there k = some v)

-- ================================================================= members

section Members

variable {ms payload fields answer : List (String × Json)} {k : String}

/-- `d.update(other)`: the members of `other` win. -/
theorem getMember_updateMembers_or (hnd : (answer.map Prod.fst).Nodup) :
    Json.getMember (updateMembers fields answer) k
      = (Json.getMember answer k).or (Json.getMember fields k) := by
  cases hanswer : Json.getMember answer k with
  | none =>
      exact getMember_updateMembers_other
        (Json.getMember_eq_none.mp hanswer)
  | some v =>
      exact getMember_updateMembers hnd (Json.getMember_mem hanswer)

/-- What `dict(…)` makes of a member that is an object or absent. -/
theorem asDict_of_dictMember
    {dictOf : Json → Option (List (String × Json))}
    {members : List (String × Json)} (h : dictMember ms k = some members) :
    asDict dictOf ((Json.getMember ms k).getD .null) = some members := by
  unfold dictMember at h
  unfold asDict
  generalize (Json.getMember ms k).getD .null = v at h ⊢
  cases v with
  | obj _ => exact h
  | _ =>
      simp only at h ⊢
      split at h
      · cases h
      · rename_i hfalsy
        rw [if_neg hfalsy]
        exact h

/-- A merge into objects overrides the provided fields. -/
theorem mergedReport_overrides
    {dictOf : Json → Option (List (String × Json))}
    (hpayload : dictMember ms "action_payload" = some payload)
    (hfields : dictMember payload "provided_fields" = some fields)
    (hnd : (answer.map Prod.fst).Nodup) :
    ∃ ms' payload' fields', mergedReport dictOf ms answer = some ms'
      ∧ Overrides ms ms' answer payload fields payload' fields' := by
  let payload' := Json.setMember payload "provided_fields"
    (.obj (updateMembers fields answer))
  refine ⟨Json.setMember ms "action_payload" (.obj payload'), payload',
    updateMembers fields answer, ?_, hpayload, hfields, ?_, ?_, fun k =>
      getMember_updateMembers_or hnd, fun k hk => ?_, fun k hk => ?_⟩
  · unfold mergedReport
    rw [asDict_of_dictMember hpayload, Option.bind_eq_bind,
      Option.bind_some, asDict_of_dictMember hfields, Option.bind_some]
    rfl
  · rw [Json.getMember_setMember, if_pos rfl]
  · rw [Json.getMember_setMember, if_pos rfl]
  · rw [Json.getMember_setMember, if_neg (Ne.symm hk)]
  · rw [Json.getMember_setMember, if_neg (Ne.symm hk)]

/-- A report that its own fields override carries the answer. -/
theorem Overrides.there {payload' fields' : List (String × Json)}
    (h : Overrides ms ms answer payload fields payload' fields') :
    ∃ there, providedFields ms = some there
      ∧ ∀ k v, Json.getMember answer k = some v →
        Json.getMember there k = some v := by
  refine ⟨fields', ?_, fun k v hkv => ?_⟩
  · unfold providedFields
    rw [h.payload_of']
    simp only [h.fields_of']
  · rw [h.overridden, hkv, Option.some_or]

/-- And the other way round. -/
theorem overrides_of_there {there : List (String × Json)}
    (h : providedFields ms = some there)
    (hthere : ∀ k v, Json.getMember answer k = some v →
      Json.getMember there k = some v) :
    ∃ payload fields payload' fields',
      Overrides ms ms answer payload fields payload' fields' := by
  unfold providedFields at h
  split at h
  · rename_i payload hpayload
    split at h
    · rename_i fields hfields
      injection h with h
      subst h
      refine ⟨payload, fields, payload, fields, ?_, ?_, hpayload, hfields,
        fun k => ?_, fun k _ => rfl, fun k _ => rfl⟩
      · simp only [dictMember, hpayload, Option.getD_some]
      · simp only [dictMember, hfields, Option.getD_some]
      · cases hanswer : Json.getMember answer k with
        | none => rw [Option.none_or]
        | some v => rw [hthere k v hanswer, Option.some_or]
    · cases h
  · cases h

end Members

-- ================================================================== merging

section Merging

variable {rt : Runtime} {svc : ArtifactService}
  {dictOf : Json → Option (List (String × Json))}
  {store store' : Table Artifact × Blobs} {sid id : Uuid}
  {runId : Option Uuid} {ms answer report : List (String × Json)}

/-- The report the merge starts from. -/
theorem reportContent_of_previous
    (h : previousReport rt store sid = some ms) :
    ReportReadable rt store sid
      ∧ reportContent rt store.1.rows store.2 sid = ms := by
  unfold previousReport at h
  unfold ReportReadable reportContent
  split at h
  · rename_i hread
    rw [hread]
    injection h with h
    exact ⟨trivial, h⟩
  · cases h
  · rename_i e hread
    rw [hread]
    split at h
    · rename_i hnotfound
      injection h with h
      exact ⟨hnotfound, h⟩
    · cases h

/-- The merged report is what is read afterwards. -/
theorem ReportMerged.read (h : ReportMerged rt dictOf sid answer store store')
    (hmerged : mergedReport dictOf
      (reportContent rt store.1.rows store.2 sid) answer = some report)
    (hloads : LoadsBack rt (.obj report)) :
    ∃ row, LegalBot.read rt store'.1.rows store'.2 sid
      (.key "analysis/report") none = .ok (row, .value (.obj report)) := by
  obtain ⟨report', row, hreport, hadds, hholds, hmime⟩ := h
  rw [hmerged] at hreport
  injection hreport with hreport
  subst hreport
  refine ⟨row, ?_⟩
  rw [read_one hadds.latest, hholds.resolve_value hmime hloads]
  rfl

/-- The merge keeps the answer exactly when the report takes it. -/
theorem mergeContractProvidedFields_keeps_iff (hc : Chains store.1)
    (hfresh : ∀ r ∈ store.1.rows, r.id ≠ id)
    (hnd : (answer.map Prod.fst).Nodup)
    (hloads : ∀ report, mergedReport dictOf
      (reportContent rt store.1.rows store.2 sid) answer = some report →
      LoadsBack rt (.obj report)) (hne : answer ≠ []) :
    AnswerKept rt sid answer store
        (mergeContractProvidedFields rt svc dictOf sid runId answer id
          store)
      ↔ ReportTakes rt svc sid answer store := by
  constructor
  · rintro (⟨hnil, -⟩ | ⟨-, ms, ms', row, hprevious, hread, payload,
      fields, payload', fields', hover⟩)
    · exact absurd hnil hne
    · refine Or.inr ⟨ms, payload, fields, hprevious, hover.payload_of,
        hover.fields_of, ?_⟩
      rcases @mergeContractProvidedFields_cases rt svc dictOf store sid id
        runId answer hc hfresh hne with ⟨hwrites, -⟩ | ⟨-, hsame⟩
      · exact Or.inl hwrites.room
      · -- nothing was written, so the fields were there
        rw [hsame] at hread
        unfold previousReport at hprevious
        rw [hread] at hprevious
        injection hprevious with hprevious
        subst hprevious
        exact Or.inr hover.there
  · rintro (hnil | ⟨ms, payload, fields, hprevious, hpayload, hfields,
      hroom⟩)
    · exact absurd hnil hne
    · obtain ⟨hreadable, hcontent⟩ := reportContent_of_previous hprevious
      obtain ⟨ms', payload', fields', hmerged, hover⟩ :=
        @mergedReport_overrides ms payload fields answer dictOf hpayload
          hfields hnd
      refine Or.inr ⟨hne, ?_⟩
      rcases @mergeContractProvidedFields_cases rt svc dictOf store sid id
        runId answer hc hfresh hne with ⟨-, hdone⟩ | ⟨hnot, hsame⟩
      · obtain ⟨row, hread⟩ := hdone.read (by rw [hcontent]; exact hmerged)
          (hloads ms' (by rw [hcontent]; exact hmerged))
        exact ⟨ms, ms', row, hprevious, hread, payload, fields, payload',
          fields', hover⟩
      · rcases hroom with hroom | ⟨there, hthere, hcarries⟩
        · refine absurd ⟨hreadable, ?_, hroom⟩ hnot
          rw [hcontent, hmerged]
          exact Option.some_ne_none ms'
        · -- the report that was read is left as it is
          rw [hsame]
          have hread : ∃ row, LegalBot.read rt store.1.rows store.2 sid
              (.key "analysis/report") none
              = .ok (row, .value (.obj ms)) := by
            unfold previousReport at hprevious
            split at hprevious
            · rename_i row ms₀ hread
              injection hprevious with hprevious
              subst hprevious
              exact ⟨row, hread⟩
            · cases hprevious
            · split at hprevious
              · injection hprevious with hprevious
                subst hprevious
                cases hthere
              · cases hprevious
          obtain ⟨row, hread⟩ := hread
          obtain ⟨p, f, p', f', hsame'⟩ := overrides_of_there hthere
            hcarries
          exact ⟨ms, ms, row, hprevious, hread, p, f, p', f', hsame'⟩

/-- After the edits of a body, its answer is kept exactly when the report
they leave takes it. -/
theorem answer_merge_iff {artifacts : Table Artifact} {blobs : Blobs}
    {draw : Nat → Uuid} (hinj : Function.Injective draw)
    (hc : Chains artifacts) (hundrawn : Undrawn draw 0 artifacts)
    (hnd : (answer.map Prod.fst).Nodup)
    (hloads : ∀ report, mergedReport dictOf
      (reportContent rt store.1.rows store.2 sid) answer = some report →
      LoadsBack rt (.obj report))
    {createdBy : String} {edits : List ArtifactEdit}
    (reason : Option String)
    (hstore : applyArtifactEdits rt svc sid runId createdBy draw 0 edits
      (artifacts, blobs) = .ok store) :
    AnswerKept rt sid answer store
        (match (InterruptResolution.info (some answer) false reason
            edits).mergedAnswer with
          | none => store
          | some answer => mergeContractProvidedFields rt svc dictOf sid
              runId answer (draw edits.length) store)
      ↔ ReportTakes rt svc sid answer store := by
  obtain ⟨hchains, hleft⟩ := applyArtifactEdits_chains hinj hc hundrawn
    hstore
  cases answer with
  | nil => exact iff_of_true (Or.inl ⟨rfl, rfl⟩) (Or.inl rfl)
  | cons m rest =>
      exact mergeContractProvidedFields_keeps_iff hchains
        (fun r hr => hleft r hr _ (by omega)) hnd
        hloads (List.cons_ne_nil m rest)

end Merging

-- =============================================================== the result

/-- An unskipped answer that `resolve` accepts is in the report afterwards,
over what was provided before and with everything else unchanged, exactly
when the report takes it, provided that `json.loads` inverts `json.dumps`
on the merged report. A request that raises changes nothing. -/
theorem answer_kept_iff {n : Nat} {valid : Json → Json → Bool}
    {rt : Runtime} {svc : ArtifactService} {s : ArtifactState n}
    (h : ArtifactReaches rt svc Lts.Always s)
    {dictOf : Json → Option (List (String × Json))} {now : Time} {db : Db}
    (hdb : db.artifacts.rows = s.committed) {sid : Uuid}
    {answer : List (String × Json)} {reason : Option String}
    {edits : List ArtifactEdit} {resolvedBy : Option String}
    {draw : Nat → Uuid} (hinj : Function.Injective draw)
    (hundrawn : Undrawn draw 0 db.artifacts)
    (hnd : (answer.map Prod.fst).Nodup) {interventionId : Uuid} :
    let request := resolveInterrupt valid rt svc dictOf now db s.blobs sid
      (.info (some answer) false reason edits) resolvedBy draw
      interventionId
    (∀ e, request.2 = .error e → committedAfter db request.1 = db)
      ∧ ∀ resumed, request.2 = .ok resumed →
        ∃ current store after blobs' sent,
          currentForSession db.interrupts sid = some current
          ∧ applyArtifactEdits rt svc sid current.runId
            (signedBy resolvedBy) draw 0 edits (db.artifacts, s.blobs)
            = .ok store
          ∧ request.1 = .commit after blobs' :: sent
          ∧ ((∀ report, mergedReport dictOf
              (reportContent rt store.1.rows store.2 sid) answer
              = some report → LoadsBack rt (.obj report)) →
            (AnswerKept rt sid answer store (after.artifacts, blobs')
              ↔ ReportTakes rt svc sid answer store)) := by
  intro request
  refine ⟨fun e he => ?_, fun resumed hok => ?_⟩
  · have hnothing : request.1 = [] := resolveInterrupt_raises he
    rw [hnothing]
    rfl
  · obtain ⟨res, hwhole⟩ := resolveInterrupt_answers hok
    obtain ⟨store, hstore, hcurrent, hleft⟩ := resolveWhole_ok hwhole
    have hc : Chains db.artifacts := by
      intro cell
      rw [hdb]
      exact (reaches_chained h).drafts.committed cell
    refine ⟨res.current, store, res.db, res.blobs, _, hcurrent, hstore,
      resolveInterrupt_ok hwhole, fun hloads => ?_⟩
    rw [hleft]
    exact answer_merge_iff hinj hc hundrawn hnd hloads reason hstore

-- =============================================================== scenarios

/-- A case number, unskipped, after these edits. -/
def caseNumberAfter (edits : List ArtifactEdit) : InterruptResolution :=
  .info (some [("case_number", .str "A-123")]) false none edits

/-- A report. -/
def reportEdit : ArtifactEdit :=
  ⟨"analysis/report", .obj [("risk", .int 1)], none, "replace", none, none⟩

/-- That report with the case number. -/
def caseReport : Json :=
  .obj [("risk", .int 1), ("action_payload", .obj [("provided_fields",
    .obj [("case_number", .str "A-123")])])]

/-- The runtime on that report. -/
def Runtime.caseReport : Runtime :=
  { Runtime.sample with
    loads := fun data =>
      if data = Json.encodeUtf8 (Json.dumps LegalBot.caseReport) then
        some LegalBot.caseReport
      else none }

/-- It reads back what the merge writes. -/
theorem loadsBack_merged {report : List (String × Json)}
    (h : mergedReport (fun _ => none) [("risk", .int 1)]
      [("case_number", .str "A-123")] = some report) :
    LoadsBack Runtime.caseReport (.obj report) := by
  have hreport : caseReport = .obj report :=
    congrArg Json.obj (Option.some_inj.mp h)
  have hreads : LoadsBack Runtime.caseReport caseReport := by
    simp [LoadsBack, Runtime.caseReport]
  rwa [hreport] at hreads

/-- The body is accepted after these edits of the report, which leave it
with room for a version or without. -/
theorem caseNumberAfter_accepted {edits : List ArtifactEdit} {room : Bool}
    (hrun : ((Lts.run (apply Env.required) State.init
      (askedWith caseQuestion)).map fun s =>
        (s.db.artifacts.rows.isEmpty,
          (requestFirst Runtime.caseReport s
            (caseNumberAfter edits)).2.toOption,
          (editFirst Runtime.caseReport s
            (caseNumberAfter edits)).map fun found =>
            (decide (previousReport Runtime.caseReport found.2 10
                = some [("risk", .int 1)]),
              decide (nextVersion found.2.1.rows 10 "analysis/report"
                ≤ ArtifactService.default.versionCap))))
      = some (true, some true, some (true, room))) :
    ∃ s store current,
      Lts.run (apply Env.required) State.init (askedWith caseQuestion)
        = some s
      ∧ s.db.artifacts.rows = []
      ∧ (∃ resumed, (requestFirst Runtime.caseReport s
        (caseNumberAfter edits)).2 = .ok resumed)
      ∧ currentForSession s.db.interrupts 10 = some current
      ∧ applyArtifactEdits Runtime.caseReport ArtifactService.default 10
        current.runId (signedBy none) (fun n => 50 + n) 0 edits
        (s.db.artifacts, fun _ => none) = .ok store
      ∧ previousReport Runtime.caseReport store 10
        = some [("risk", .int 1)]
      ∧ (nextVersion store.1.rows 10 "analysis/report"
        ≤ ArtifactService.default.versionCap ↔ room = true) := by
  obtain ⟨s, hs, hmap⟩ := Option.map_eq_some_iff.mp hrun
  simp only [Prod.mk.injEq] at hmap
  obtain ⟨hrows, hok, hfound⟩ := hmap
  obtain ⟨⟨current, store⟩, hedit, hleft⟩ := Option.map_eq_some_iff.mp hfound
  simp only [Prod.mk.injEq] at hleft
  obtain ⟨request, hcurrent, hedit⟩ := Option.bind_eq_some_iff.mp hedit
  obtain ⟨left, hstore, hpair⟩ := Option.map_eq_some_iff.mp hedit
  obtain ⟨rfl, rfl⟩ := Prod.mk.inj hpair
  refine ⟨s, left, request, hs, List.isEmpty_iff.mp hrows,
    ⟨true, toOption_some.mp hok⟩, hcurrent, toOption_some.mp hstore,
    of_decide_eq_true hleft.1, ?_⟩
  rw [← hleft.2, decide_eq_true_iff]

/-- The report takes the answer. -/
theorem case_number_kept : ∃ s store after blobs' sent,
    Lts.run (apply Env.required) State.init (askedWith caseQuestion)
      = some s
    ∧ (requestFirst Runtime.caseReport s
        (caseNumberAfter [reportEdit])).1 = .commit after blobs' :: sent
    ∧ AnswerKept Runtime.caseReport 10 [("case_number", .str "A-123")]
      store (after.artifacts, blobs') := by
  obtain ⟨s, store, current, hs, hrows, ⟨resumed, hok⟩, hcurrent, hstore,
    hprevious, hroom⟩ := @caseNumberAfter_accepted [reportEdit] true
      (by decide +kernel)
  obtain ⟨current', store', after, blobs', sent, hcurrent', hstore',
    heffects, hiff⟩ := (answer_kept_iff (@Lts.Reachable.init _ _ _ _
      (ArtifactState.init 1)) hrows
      (fun i j hij => Nat.add_left_cancel hij) (undrawn_first hrows)
      (show ([("case_number", Json.str "A-123")].map Prod.fst).Nodup
        from List.nodup_singleton _)).2 resumed hok
  obtain rfl : current = current' :=
    Option.some_inj.mp (hcurrent.symm.trans hcurrent')
  obtain rfl : store = store' :=
    Except.ok.inj (hstore.symm.trans hstore')
  refine ⟨s, store, after, blobs', sent, hs, heffects,
    (hiff fun report hmerged => ?_).mpr (Or.inr ⟨_, [], [], hprevious, rfl,
      rfl, Or.inl (hroom.mpr rfl)⟩)⟩
  obtain ⟨-, hcontent⟩ := reportContent_of_previous hprevious
  rw [hcontent] at hmerged
  exact loadsBack_merged hmerged

/-- At its cap of 20 versions the report does not take the answer: the
request is accepted and the answer is nowhere. -/
theorem case_number_dropped :
    ¬ ∀ s edits, Reaches Env.required Lts.Always s →
      ∀ current store after blobs' sent,
        currentForSession s.db.interrupts 10 = some current →
        applyArtifactEdits Runtime.caseReport ArtifactService.default 10
          current.runId (signedBy none) (fun n => 50 + n) 0 edits
          (s.db.artifacts, fun _ => none) = .ok store →
        (requestFirst Runtime.caseReport s (caseNumberAfter edits)).1
          = .commit after blobs' :: sent →
        AnswerKept Runtime.caseReport 10 [("case_number", .str "A-123")]
          store (after.artifacts, blobs') := by
  intro hall
  obtain ⟨s, store, current, hs, hrows, ⟨resumed, hok⟩, hcurrent, hstore,
    hprevious, hroom⟩ := @caseNumberAfter_accepted
      (List.replicate 20 reportEdit) false (by decide +kernel)
  obtain ⟨res, hwhole⟩ := resolveInterrupt_answers hok
  obtain ⟨store', hstore', hcurrent', hleft⟩ := resolveWhole_ok hwhole
  obtain rfl : current = res.current :=
    Option.some_inj.mp (hcurrent.symm.trans hcurrent')
  obtain rfl : store = store' :=
    Except.ok.inj (hstore.symm.trans hstore')
  have hkept := hall s _ (Lts.reachable_of_run .init hs) _ store _ _ _
    hcurrent hstore (resolveInterrupt_ok hwhole)
  rw [hleft] at hkept
  have hc : Chains s.db.artifacts := by
    intro cell
    rw [hrows]
    exact VersionChain.IsChain.nil
  obtain ⟨-, hcontent⟩ := reportContent_of_previous hprevious
  have htakes : ReportTakes Runtime.caseReport ArtifactService.default 10
      [("case_number", .str "A-123")] store :=
    (answer_merge_iff (fun i j hij => Nat.add_left_cancel hij) hc
      (undrawn_first hrows)
      (show ([("case_number", Json.str "A-123")].map Prod.fst).Nodup
        from List.nodup_singleton _)
      (fun report hmerged => loadsBack_merged (hcontent ▸ hmerged)) none
      hstore).mp hkept
  rcases htakes with hnil | ⟨ms, payload, fields, hms, -, -, hroom' | hthere⟩
  · cases hnil
  · cases hroom.mp hroom'
  · rw [hprevious] at hms
    obtain rfl := Option.some_inj.mp hms
    obtain ⟨there, hthere, -⟩ := hthere
    cases hthere

end LegalBot
