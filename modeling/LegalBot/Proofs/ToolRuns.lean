/-
Two runs of a tool call, and what a call does outside its session.

# Two runs

What a call reads once it has found its attachment, or its draft, is
that row, its own session's artifacts and their blobs. `SameWork` and
`SameFile` say that two states share them; a call then ends alike in
both, with the same effects (`extractAttachment_twins`,
`analyzeAttachment_twins`, `sendRow_twins`). The writes are the long
part: `write_same` goes through `ArtifactService.write` over two tables
that agree on the rows of one session.

# The effects of one run

Effects only pile up (`Added`). A call reads at most the blob of its
attachment (`extractAttachment_keeps`), and does read it when the
artifact it would write is not there yet (`extractAttachment_reads`);
`send_draft` hands over the row it was given (`sendRow_keeps`) when
`HandedOver` holds and does nothing otherwise (`sendRow_calls`,
`sendRow_stays`).
-/
import LegalBot.Agents.Domain
import LegalBot.Proofs.TenantReads

namespace LegalBot.Tools

open Relational (HasKey Table)
open Raising
open VersionChain (rowsOf maxVersion Versioned)

-- ============================================================ a shared view

/-- The artifacts of a session. -/
def sessionArtifacts (artifacts : Table Artifact) (sid : Uuid) :
    List Artifact :=
  artifacts.rows.filter fun r => r.sessionId = sid

/-- No artifact has the id. -/
def Undrawn (artifacts : Table Artifact) (id : Uuid) : Prop :=
  ∀ r ∈ artifacts.rows, r.id ≠ id

/-- The same artifacts of a session with the same blobs, and neither
table has one of the ids that are still to be drawn. -/
structure SameArtifacts (sid : Uuid) (ids : List Uuid)
    (artifacts artifacts' : Table Artifact) (blobs blobs' : Blobs) :
    Prop where
  rows : sessionArtifacts artifacts' sid = sessionArtifacts artifacts sid
  blobs : ∀ r ∈ sessionArtifacts artifacts sid, ∀ ref,
    r.blobRef = some ref → blobs' ref = blobs ref
  undrawn : ∀ id ∈ ids, Undrawn artifacts id ∧ Undrawn artifacts' id
  distinct : ids.Nodup

/-- Two states in which a call of the session that still draws these ids
can do the same, and has done the same. -/
structure SameWork (sid : Uuid) (ids : List Uuid) (s s' : ToolState) :
    Prop where
  stored : SameArtifacts sid ids s.t.db.artifacts s'.t.db.artifacts
    s.blobs s'.blobs
  effects : s'.effects = s.effects

/-- The same file and the same bytes. -/
structure SameFile (att : IngestionAttachment) (s s' : ToolState) :
    Prop where
  columns : s'.t.files att.id = s.t.files att.id
  bytes : ∀ uri, (s.t.files att.id).rawUri = some uri →
    s'.blobs uri = s.blobs uri

/-- The effects are the same. -/
def SameEffects (s s' : ToolState) : Prop := s'.effects = s.effects

theorem run_query_bind {α β : Type} {f : ToolState → α}
    {g : α → ToolM β} {s : ToolState} :
    run (query f >>= g) s = run (g (f s)) s := rfl

-- ========================================================== artifacts alone

section Stored

variable {sid id : Uuid} {ids : List Uuid}
  {artifacts artifacts' : Table Artifact} {blobs blobs' : Blobs}
  {rt : Runtime} {svc : ArtifactService} {a : WriteArgs} {row : Artifact}
  {prior : Option Uuid}

theorem filter_own {p : Artifact → Bool}
    (hp : ∀ r, p r = true → r.sessionId = sid) :
    artifacts.rows.filter p = (sessionArtifacts artifacts sid).filter p := by
  unfold sessionArtifacts
  rw [List.filter_filter]
  refine List.filter_congr fun r _ => ?_
  cases hr : p r with
  | false => simp
  | true => simp [hp r hr]

/-- A read by key is one of the session's own rows. -/
theorem read_same (h : SameArtifacts sid ids artifacts artifacts' blobs
    blobs') (k : String) :
    read rt artifacts'.rows blobs' sid (.key k) none
      = read rt artifacts.rows blobs sid (.key k) none := by
  have hown : ∀ r, readMatches sid (.key k) none r = true →
      r.sessionId = sid := fun r hr => (of_decide_eq_true hr).1
  have hrows : artifacts'.rows.filter (readMatches sid (.key k) none)
      = artifacts.rows.filter (readMatches sid (.key k) none) := by
    rw [filter_own hown, filter_own hown, h.rows]
  unfold read
  rw [hrows]
  cases hone : scalarOneOrNone (artifacts.rows.filter
      (readMatches sid (.key k) none)) with
  | error e => rfl
  | ok found =>
      cases found with
      | none => rfl
      | some row =>
          have hmem : row ∈ artifacts.rows.filter
              (readMatches sid (.key k) none) := by
            rw [scalarOneOrNone_some hone]
            exact List.mem_singleton_self _
          rw [filter_own hown] at hmem
          have hblob := h.blobs row (List.mem_filter.mp hmem).1
          show (resolvePayload rt blobs' row >>= _)
            = (resolvePayload rt blobs row >>= _)
          rw [resolvePayload_of_blob hblob]

/-- The versions of a key are the session's own rows. -/
theorem rowsOf_own {key : String} :
    rowsOf (sid, key) artifacts.rows
      = rowsOf (sid, key) (sessionArtifacts artifacts sid) :=
  filter_own fun _ hr => (Prod.mk.inj (of_decide_eq_true hr)).1

theorem nextVersion_same (h : SameArtifacts sid ids artifacts artifacts'
    blobs blobs') (key : String) :
    nextVersion artifacts'.rows sid key
      = nextVersion artifacts.rows sid key := by
  unfold nextVersion
  rw [rowsOf_own, rowsOf_own, h.rows]

theorem selectLatest_same (h : SameArtifacts sid ids artifacts artifacts'
    blobs blobs') (key : String) :
    selectLatest artifacts'.rows sid key
      = selectLatest artifacts.rows sid key := by
  unfold selectLatest
  rw [rowsOf_own, rowsOf_own, h.rows]

/-- A demotion moves no row to another session. -/
theorem own_demoteLatest :
    sessionArtifacts (demoteLatest artifacts prior) sid
      = (sessionArtifacts artifacts sid).map fun r =>
        if some r.id = prior then { r with isLatest := false } else r := by
  unfold sessionArtifacts demoteLatest Table.updateWhere
  dsimp only
  rw [List.filter_map]
  have hkept : (fun r : Artifact => decide (r.sessionId = sid))
      ∘ (fun r => if decide (some r.id = prior) = true then
        { r with isLatest := false } else r)
      = fun r => decide (r.sessionId = sid) := by
    funext r
    show decide (Artifact.sessionId (ite _ _ _) = sid) = _
    split <;> rfl
  rw [hkept]
  refine List.map_congr_left fun r _ => ?_
  simp

/-- What a demotion makes of a row keeps its id and its blob. -/
theorem mem_demoteLatest {r : Artifact}
    (hr : r ∈ (demoteLatest artifacts prior).rows) :
    ∃ r₀ ∈ artifacts.rows, r₀.id = r.id ∧ r₀.sessionId = r.sessionId
      ∧ r₀.blobRef = r.blobRef := by
  obtain ⟨r₀, hr₀, rfl⟩ := List.mem_map.mp hr
  refine ⟨r₀, hr₀, ?_⟩
  split
  · exact ⟨rfl, rfl, rfl⟩
  · exact ⟨rfl, rfl, rfl⟩

theorem Undrawn.demoteLatest (h : Undrawn artifacts id) :
    Undrawn (LegalBot.demoteLatest artifacts prior) id := by
  intro r hr
  obtain ⟨r₀, hr₀, hid, -⟩ := mem_demoteLatest hr
  exact hid ▸ h r₀ hr₀

/-- An insert under a fresh id is refused by the session's own rows. -/
theorem violates_own (hsid : row.sessionId = sid)
    (hid : Undrawn artifacts row.id) :
    Violates artifacts.rows row
      ↔ Violates (sessionArtifacts artifacts sid) row := by
  constructor
  · rintro ⟨r, hr, hconflict⟩
    refine ⟨r, List.mem_filter.mpr ⟨hr, decide_eq_true ?_⟩, hconflict⟩
    rcases hconflict with heq | ⟨hsame, -⟩
    · exact absurd heq (hid r hr)
    · exact hsame.trans hsid
  · rintro ⟨r, hr, hconflict⟩
    exact ⟨r, (List.mem_filter.mp hr).1, hconflict⟩

theorem insertArtifact_fresh (hid : Undrawn artifacts row.id)
    (hviolates : ¬ Violates artifacts.rows row) :
    ∃ t, insertArtifact artifacts row = .ok t
      ∧ t.rows = artifacts.rows ++ [row] := by
  have hget : artifacts.get (HasKey.key row) = none := by
    refine Table.get_eq_none.mpr fun hmem => ?_
    obtain ⟨r, hr, heq⟩ := List.mem_map.mp hmem
    exact hid r hr heq
  obtain ⟨t, ht⟩ := Table.insert_of_fresh hget
  refine ⟨t, ?_, Table.insert_rows ht⟩
  unfold insertArtifact
  rw [if_neg hviolates, ht]

/-- A payload goes to the same place in both stores. -/
theorem putPayload_same {ref : String} {payload : Payload}
    (h : blobs' ref = blobs ref) :
    putPayload blobs' a id payload ref
      = putPayload blobs a id payload ref := by
  unfold putPayload
  cases payload.storage with
  | inline => exact h
  | blob =>
      show Function.update _ _ _ ref = Function.update _ _ _ ref
      rw [Function.update_apply, Function.update_apply, h]

/-- The session's rows after a write. -/
theorem own_written (hsid : row.sessionId = sid)
    (hrows : artifacts'.rows
      = (demoteLatest artifacts prior).rows ++ [row]) :
    sessionArtifacts artifacts' sid
      = sessionArtifacts (demoteLatest artifacts prior) sid ++ [row] := by
  unfold sessionArtifacts
  rw [hrows, List.filter_append]
  congr 1
  simp [hsid]

/-- The same write leaves the two stores the same. -/
theorem SameArtifacts.written {t t' : Table Artifact} {version : Nat}
    {payload : Payload}
    (h : SameArtifacts sid (id :: ids) artifacts artifacts' blobs blobs')
    (hsid : a.sessionId = sid)
    (ht : t.rows = (demoteLatest artifacts prior).rows
      ++ [newArtifact rt a id version payload prior])
    (ht' : t'.rows = (demoteLatest artifacts' prior).rows
      ++ [newArtifact rt a id version payload prior]) :
    SameArtifacts sid ids t t' (putPayload blobs a id payload)
      (putPayload blobs' a id payload) := by
  obtain ⟨hhead, hdistinct⟩ := List.nodup_cons.mp h.distinct
  have hundrawn : ∀ {u v : Table Artifact}, (∀ d ∈ ids, Undrawn u d) →
      v.rows = (demoteLatest u prior).rows
        ++ [newArtifact rt a id version payload prior] →
      ∀ d ∈ ids, Undrawn v d := by
    intro u v hu hv d hd r hr
    rw [hv] at hr
    rcases List.mem_append.mp hr with hr | hr
    · exact (hu d hd).demoteLatest r hr
    · rw [List.mem_singleton.mp hr]
      intro heq
      have hd' : id = d := heq
      exact hhead (hd' ▸ hd)
  refine ⟨?_, fun r hr ref href => ?_, fun d hd => ⟨?_, ?_⟩, hdistinct⟩
  · rw [own_written hsid ht, own_written hsid ht', own_demoteLatest,
      own_demoteLatest, h.rows]
  · rw [own_written hsid ht] at hr
    rcases List.mem_append.mp hr with hr | hr
    · obtain ⟨hmem, hown⟩ := List.mem_filter.mp hr
      obtain ⟨r₀, hr₀, -, hsame, hblob⟩ := mem_demoteLatest hmem
      refine putPayload_same (h.blobs r₀ ?_ ref (hblob.trans href))
      exact List.mem_filter.mpr
        ⟨hr₀, decide_eq_true (hsame.trans (of_decide_eq_true hown))⟩
    · -- the new row's blob has just been put
      rw [List.mem_singleton.mp hr] at href
      unfold newArtifact at href
      unfold putPayload
      cases hstorage : payload.storage with
      | inline =>
          rw [hstorage] at href
          cases href
      | blob =>
          rw [hstorage] at href
          injection href with href
          show Function.update _ _ _ ref = Function.update _ _ _ ref
          rw [← href, Function.update_self, Function.update_self]
  · exact hundrawn (fun d hd => (h.undrawn d (.tail _ hd)).1) ht d hd
  · exact hundrawn (fun d hd => (h.undrawn d (.tail _ hd)).2) ht' d hd

/-- A write of the session ends alike over both stores. -/
theorem write_same (rt : Runtime) (svc : ArtifactService)
    (h : SameArtifacts sid (id :: ids) artifacts artifacts' blobs blobs')
    (hsid : a.sessionId = sid) :
    (∃ e, write rt svc artifacts blobs a id = .error e
        ∧ write rt svc artifacts' blobs' a id = .error e)
      ∨ ∃ row t t' bs bs', write rt svc artifacts blobs a id
          = .ok (row, t, bs)
        ∧ write rt svc artifacts' blobs' a id = .ok (row, t', bs')
        ∧ SameArtifacts sid ids t t' bs bs' := by
  subst hsid
  unfold write
  rw [nextVersion_same h, selectLatest_same h]
  simp only [bind, Except.bind, pure, Except.pure, throw, throwThe,
    MonadExceptOf.throw]
  split
  · exact Or.inl ⟨_, rfl, rfl⟩
  · cases payloadOf rt svc a with
    | error e => exact Or.inl ⟨e, rfl, rfl⟩
    | ok payload =>
        cases selectLatest artifacts.rows a.sessionId a.key with
        | error e => exact Or.inl ⟨e, rfl, rfl⟩
        | ok prior =>
            dsimp only
            generalize hrow : newArtifact rt a id _ payload prior = row
            have hid : row.id = id := by rw [← hrow]; rfl
            have hown : row.sessionId = a.sessionId := by rw [← hrow]; rfl
            obtain ⟨hu, hu'⟩ := h.undrawn id (.head _)
            rw [← hid] at hu hu'
            have hiff : Violates (demoteLatest artifacts' prior).rows row
                ↔ Violates (demoteLatest artifacts prior).rows row := by
              rw [violates_own hown hu'.demoteLatest,
                violates_own hown hu.demoteLatest, own_demoteLatest,
                own_demoteLatest, h.rows]
            by_cases hviolates :
                Violates (demoteLatest artifacts prior).rows row
            · unfold insertArtifact
              rw [if_pos hviolates, if_pos (hiff.mpr hviolates)]
              exact Or.inl ⟨_, rfl, rfl⟩
            · obtain ⟨t, hins, ht⟩ :=
                insertArtifact_fresh hu.demoteLatest hviolates
              obtain ⟨t', hins', ht'⟩ := insertArtifact_fresh
                hu'.demoteLatest fun hv => hviolates (hiff.mp hv)
              rw [hins, hins']
              subst hrow
              exact Or.inr ⟨_, t, t', _, _, rfl, rfl,
                h.written rfl ht ht'⟩

end Stored

section Reading

variable {env : ToolEnv} {sid : Uuid} {ids : List Uuid}
  {s s' : ToolState} {att : IngestionAttachment}

/-- The two relations that a call goes through up to its writes. -/
structure Ready (sid : Uuid) (ids : List Uuid) (att : IngestionAttachment)
    (s s' : ToolState) : Prop where
  work : SameWork sid ids s s'
  file : SameFile att s s'

theorem readKey_twins {Q : Except ArtifactError Content →
      ToolState → ToolState → Prop}
    {E : ToolError → ToolState → ToolState → Prop} {k : String}
    (h : SameWork sid ids s s') (hQ : ∀ found, Q found s s') :
    Twins (readKey env sid k) Q E s s' := by
  unfold readKey query
  refine twins_read ?_ (hQ _)
  rw [read_same h.stored k]

theorem skip_twins {k : String} {preview : Option String}
    (h : Ready sid ids att s s') :
    Twins (skipIfArtifactExists env sid k preview)
      (fun _ => Ready sid ids att) (fun _ => SameEffects) s s' := by
  unfold skipIfArtifactExists
  refine twins_bind (readKey_twins h.work fun found => ?_)
  cases found with
  | error e =>
      dsimp only
      split
      · exact twins_pure h
      · exact twins_throw h.work.effects
  | ok content =>
      refine twins_bind ?_
      unfold previewMember
      cases preview with
      | none => exact twins_pure (twins_pure h)
      | some key =>
          refine twins_bind (readKey_twins h.work fun found => ?_)
          cases found with
          | ok content => exact twins_pure (twins_pure h)
          | error e =>
              dsimp only
              split
              · exact twins_pure (twins_pure h)
              · exact twins_throw h.work.effects

theorem emit_twins {e : Effect} {Q : PUnit → ToolState → ToolState → Prop}
    {E : ToolError → ToolState → ToolState → Prop}
    (h : Q ⟨⟩ { s with effects := s.effects ++ [e] }
      { s' with effects := s'.effects ++ [e] }) :
    Twins (emit e) Q E s s' := by
  unfold emit
  exact twins_modify h

theorem attempt_twins {ε α : Type} {wrap : ε → ToolError}
    {x : Except ε α} {Q : α → ToolState → ToolState → Prop}
    {E : ToolError → ToolState → ToolState → Prop}
    (hQ : ∀ a, Q a s s') (hE : ∀ e, E e s s') :
    Twins (attempt wrap x) Q E s s' := by
  unfold attempt
  cases x with
  | ok a => exact twins_pure (hQ a)
  | error e => exact twins_throw (hE (wrap e))

theorem Ready.emit (h : Ready sid ids att s s') (e : Effect) :
    Ready sid ids att { s with effects := s.effects ++ [e] }
      { s' with effects := s'.effects ++ [e] } :=
  { work := ⟨h.work.stored, congrArg (· ++ [e]) h.work.effects⟩
    file := ⟨h.file.columns, h.file.bytes⟩ }

/-- A text that counts is there. -/
theorem orText_some {v : Option String} (hne : orText v "" ≠ "") :
    v = some (orText v "") := by
  unfold orText at hne ⊢
  cases v with
  | none => exact absurd rfl hne
  | some text =>
      dsimp only at hne ⊢
      split
      · rename_i hempty
        rw [if_pos hempty] at hne
        exact absurd rfl hne
      · rfl

theorem rawBytes_twins (h : Ready sid ids att s s') :
    Twins (rawBytes att) (fun _ => Ready sid ids att)
      (fun _ => SameEffects) s s' := by
  unfold rawBytes query
  refine twins_bind (twins_read ?_ ?_)
  · rw [h.file.columns]
  · split
    · exact twins_pure h
    · rename_i hne
      refine twins_bind (emit_twins ?_)
      refine twins_bind (twins_read ?_ ?_)
      · exact (h.file.bytes _ (orText_some hne)).symm
      · split
        · exact twins_pure (h.emit _)
        · exact twins_throw (h.emit _).work.effects

end Reading

-- ==================================================================== calls

section Calls

variable {env : ToolEnv} {caller : Caller} {sid id : Uuid}
  {ids : List Uuid} {s s' : ToolState} {att : IngestionAttachment}
  {args : WriteArgs}

theorem run_writeArtifact :
    run (writeArtifact env args id) s =
      match write env.rt env.svc s.t.db.artifacts s.blobs args id with
      | .error e => (.error (.artifact e), s)
      | .ok (row, artifacts, blobs) =>
          (.ok row, { s with
            t := { s.t with db := { s.t.db with artifacts := artifacts } }
            blobs := blobs
            effects := s.effects ++ [Effect.write args row] }) := by
  unfold writeArtifact
  rw [run_get_bind]
  cases write env.rt env.svc s.t.db.artifacts s.blobs args id with
  | error e => rfl
  | ok written => rfl

theorem writeArtifact_twins (h : SameWork sid (id :: ids) s s')
    (hsid : args.sessionId = sid) :
    Twins (writeArtifact env args id) (fun _ => SameWork sid ids)
      (fun _ => SameEffects) s s' := by
  unfold Twins
  rw [run_writeArtifact, run_writeArtifact]
  rcases write_same env.rt env.svc h.stored hsid with
    ⟨e, herror, herror'⟩ | ⟨row, t, t', bs, bs', hok, hok', hstored⟩
  · rw [herror, herror']
    exact ⟨rfl, h.effects⟩
  · rw [hok, hok']
    exact ⟨rfl, hstored, congrArg (· ++ [Effect.write args row]) h.effects⟩

/-- The commit, and what is returned after it. -/
theorem commit_twins {α : Type} {a : α} (h : SameEffects s s') :
    Twins (emit .commit >>= fun _ => pure a) (fun _ => SameEffects)
      (fun _ => SameEffects) s s' :=
  twins_bind (emit_twins (twins_pure (congrArg (· ++ [Effect.commit]) h)))

/-- The bytes, the type and what is made of them. -/
theorem attemptOn_twins {ε α : Type} {wrap : ε → ToolError}
    {g : List UInt8 → Option String → Except ε α}
    {f : α → ToolM Json}
    (h : Ready sid ids att s s')
    (hf : ∀ a t t', Ready sid ids att t t' →
      Twins (f a) (fun _ => SameEffects) (fun _ => SameEffects) t t') :
    Twins (do
        let data ← rawBytes att
        let mime ← query fun s => (s.t.files att.id).mimeType
        let result ← attempt wrap (g data mime)
        f result)
      (fun _ => SameEffects) (fun _ => SameEffects) s s' := by
  refine twins_bind ((rawBytes_twins h).mono (fun data t t' h => ?_)
    fun _ _ _ h => h)
  refine twins_bind (twins_read ?_ ?_)
  · rw [h.file.columns]
  · exact twins_bind (attempt_twins (fun a => hf a t t' h)
      fun _ => h.work.effects)

/-- `run_attachment_extraction` of an attachment both states have. -/
theorem extractAttachment_twins
    (h : Ready caller.sessionId [caller.firstId, caller.secondId] att
      s s') :
    Twins (extractAttachment env caller att) (fun _ => SameEffects)
      (fun _ => SameEffects) s s' := by
  unfold extractAttachment
  refine twins_bind ((skip_twins h).mono (fun skipped t t' h => ?_)
    fun _ _ _ h => h)
  cases skipped with
  | some payload => exact twins_pure h.work.effects
  | none =>
      refine attemptOn_twins h fun result t t' h => ?_
      refine twins_bind ((writeArtifact_twins h.work rfl).mono
        (fun textRow t t' h => ?_) fun _ _ _ h => h)
      refine twins_bind ((writeArtifact_twins h rfl).mono
        (fun dataRow t t' h => ?_) fun _ _ _ h => h)
      exact commit_twins h.effects

/-- `analyze_image` of an attachment both states have. -/
theorem analyzeAttachment_twins
    (h : Ready caller.sessionId [caller.firstId] att s s') :
    Twins (analyzeAttachment env caller att) (fun _ => SameEffects)
      (fun _ => SameEffects) s s' := by
  unfold analyzeAttachment
  refine twins_bind ((skip_twins h).mono (fun skipped t t' h => ?_)
    fun _ _ _ h => h)
  cases skipped with
  | some payload => exact twins_pure h.work.effects
  | none =>
      refine attemptOn_twins h fun found t t' h => ?_
      refine twins_bind ((writeArtifact_twins h.work rfl).mono
        (fun row t t' h => ?_) fun _ _ _ h => h)
      exact commit_twins h.effects

/-- `send_draft` of a row whose mailbox both states resolve alike. -/
theorem sendRow_twins {draft : Draft}
    (hmailbox : resolveMailbox s.t draft.sessionId
      = resolveMailbox s'.t draft.sessionId)
    (h : SameEffects s s') :
    Twins (sendRow env draft) (fun _ => SameEffects)
      (fun _ => SameEffects) s s' := by
  unfold sendRow
  refine twins_bind (twins_read hmailbox ?_)
  cases resolveMailbox s.t draft.sessionId with
  | none => exact twins_pure h
  | some found =>
      obtain ⟨mailbox, email⟩ := found
      refine twins_bind ((?_ : Twins (decrypted env mailbox)
        (fun _ => SameEffects) (fun _ => SameEffects) s s').mono
          (fun credentials t t' h => ?_) fun _ _ _ h => h)
      · unfold decrypted
        cases mailbox.credentials with
        | none => exact twins_pure h
        | some data =>
            dsimp only
            split
            · exact twins_pure h
            · exact twins_bind (attempt_twins (fun _ => twins_pure h)
                fun _ => h)
      · cases env.adapters mailbox.provider with
        | none => exact twins_throw h
        | some adapter =>
            have hcalled := congrArg (· ++ [Effect.callProvider draft.id
              mailbox (providerDraft draft email)]) h
            refine twins_bind (emit_twins (twins_bind
              (attempt_twins (fun result => ?_) fun _ => hcalled)))
            refine twins_bind (twins_modify (twins_bind (emit_twins ?_)))
            exact commit_twins
              (congrArg (· ++ [Effect.markSent draft.id]) hcalled)

end Calls

-- ================================================================= effects

/-- What has been done since: effects that satisfy `P`, and nothing to
the columns of a file. -/
structure Added (P : Effect → Prop) (s₀ s : ToolState) : Prop where
  files : s.t.files = s₀.t.files
  effects : ∃ es, s.effects = s₀.effects ++ es ∧ ∀ e ∈ es, P e

/-- The credentials of a mailbox, when it has some, are decrypted. -/
def Decrypts (env : ToolEnv) (mailbox : Mailbox) : Prop :=
  ∀ data, mailbox.credentials = some data → data ≠ [] →
    ∃ credentials, env.decrypt data = .ok credentials

/-- The draft gets as far as a provider: its mailbox is resolved, the
credentials are decrypted, the provider is known. -/
def HandedOver (env : ToolEnv) (t : ToolDb) (draft : Draft) : Prop :=
  ∃ mailbox email, resolveMailbox t draft.sessionId = some (mailbox, email)
    ∧ Decrypts env mailbox ∧ (env.adapters mailbox.provider).isSome

section Effects

variable {env : ToolEnv} {caller : Caller} {id : Uuid}
  {s s₀ s' : ToolState} {att : IngestionAttachment} {args : WriteArgs}
  {P : Effect → Prop} {e : Effect} {draft : Draft} {uri : String}

theorem Added.refl : Added P s s := ⟨rfl, [], by simp, by simp⟩

theorem Added.one (h : Added P s₀ s) (he : P e)
    (hfiles : s'.t.files = s.t.files)
    (heffects : s'.effects = s.effects ++ [e]) : Added P s₀ s' := by
  obtain ⟨es, hes, hall⟩ := h.effects
  refine ⟨hfiles.trans h.files, es ++ [e], ?_, fun e' he' => ?_⟩
  · rw [heffects, hes, List.append_assoc]
  · rcases List.mem_append.mp he' with he' | he'
    · exact hall e' he'
    · exact List.mem_singleton.mp he' ▸ he

theorem Added.mem (h : Added P s₀ s) (he : e ∈ s₀.effects) :
    e ∈ s.effects := by
  obtain ⟨es, hes, -⟩ := h.effects
  rw [hes]
  exact List.mem_append_left _ he

theorem Added.all (h : Added P s₀ s) (hnone : s₀.effects = []) :
    ∀ e ∈ s.effects, P e := by
  obtain ⟨es, hes, hall⟩ := h.effects
  rw [hes, hnone]
  exact hall

theorem emit_keeps (he : P e) : Keeps (Added P s₀) (emit e) :=
  keeps_modify fun _ h => h.one he rfl rfl

theorem attempt_keeps {I : ToolState → Prop} {ε α : Type}
    {wrap : ε → ToolError} {x : Except ε α} :
    Keeps I (attempt wrap x) := by
  unfold attempt
  cases x with
  | ok a => exact keeps_pure
  | error e => exact keeps_throw

/-- What follows a query goes on with what it saw. -/
theorem query_keeps {I : ToolState → Prop} {α β : Type}
    {g : ToolState → α} {f : α → ToolM β}
    (h : ∀ s, I s → I (run (f (g s)) s).2) :
    Keeps I (query g >>= f) := by
  intro s hI
  rw [run_bind]
  exact h s hI

theorem skip_keeps {I : ToolState → Prop} {k : String}
    {preview : Option String} :
    Keeps I (skipIfArtifactExists env caller.sessionId k preview) := by
  unfold skipIfArtifactExists
  refine query_keeps fun s hI => ?_
  split
  · split
    · exact hI
    · exact hI
  · refine Keeps.bind ?_ (fun _ => keeps_pure) s hI
    unfold previewMember
    cases preview with
    | none => exact keeps_pure
    | some key =>
        refine query_keeps fun s hI => ?_
        split
        · exact hI
        · split
          · exact hI
          · exact hI

theorem writeArtifact_keeps (hwrite : ∀ row, P (.write args row)) :
    Keeps (Added P s₀) (writeArtifact env args id) := by
  intro s h
  rw [run_writeArtifact]
  cases write env.rt env.svc s.t.db.artifacts s.blobs args id with
  | error e => exact h
  | ok written => exact h.one (hwrite _) rfl rfl

/-- The one blob that is read is the attachment's. -/
theorem rawBytes_keeps
    (hread : ∀ uri, (s₀.t.files att.id).rawUri = some uri →
      P (.readBlob uri)) :
    Keeps (Added P s₀) (rawBytes att) := by
  unfold rawBytes
  refine query_keeps fun s h => ?_
  split
  · exact h
  · rename_i hne
    refine Keeps.bind (emit_keeps (hread _ ?_)) (fun _ => ?_) s h
    · rw [← h.files]
      exact orText_some hne
    · refine query_keeps fun s h => ?_
      split
      · exact h
      · exact h

/-- `run_attachment_extraction` reads the blob of its attachment and
writes in its session. -/
theorem extractAttachment_keeps
    (hread : ∀ uri, (s₀.t.files att.id).rawUri = some uri →
      P (.readBlob uri))
    (hwrite : ∀ args row, args.sessionId = caller.sessionId →
      P (.write args row)) (hcommit : P .commit) :
    Keeps (Added P s₀) (extractAttachment env caller att) := by
  unfold extractAttachment
  refine skip_keeps.bind fun skipped => ?_
  cases skipped with
  | some payload => exact keeps_pure
  | none =>
      refine (rawBytes_keeps hread).bind fun data => ?_
      refine query_keeps fun s h => ?_
      refine attempt_keeps.bind (fun result => ?_) s h
      refine (writeArtifact_keeps fun _ => hwrite _ _ rfl).bind fun _ => ?_
      refine (writeArtifact_keeps fun _ => hwrite _ _ rfl).bind fun _ => ?_
      exact (emit_keeps hcommit).bind fun _ => keeps_pure

theorem analyzeAttachment_keeps
    (hread : ∀ uri, (s₀.t.files att.id).rawUri = some uri →
      P (.readBlob uri))
    (hwrite : ∀ args row, args.sessionId = caller.sessionId →
      P (.write args row)) (hcommit : P .commit) :
    Keeps (Added P s₀) (analyzeAttachment env caller att) := by
  unfold analyzeAttachment
  refine skip_keeps.bind fun skipped => ?_
  cases skipped with
  | some payload => exact keeps_pure
  | none =>
      refine (rawBytes_keeps hread).bind fun data => ?_
      refine query_keeps fun s h => ?_
      refine attempt_keeps.bind (fun result => ?_) s h
      refine (writeArtifact_keeps fun _ => hwrite _ _ rfl).bind fun _ => ?_
      exact (emit_keeps hcommit).bind fun _ => keeps_pure

/-- `send_draft` calls a provider, marks its row and commits. -/
theorem sendRow_keeps_of {I : ToolState → Prop}
    (hcall : ∀ mailbox handed,
      Keeps I (emit (.callProvider draft.id mailbox handed)))
    (hmark : Keeps I (emit (.markSent draft.id)))
    (hcommit : Keeps I (emit .commit))
    (hdrafts : ∀ s drafts, I s → I { s with
      t := { s.t with drafts := drafts } }) :
    Keeps I (sendRow env draft) := by
  unfold sendRow
  refine query_keeps fun s h => ?_
  cases resolveMailbox s.t draft.sessionId with
  | none => exact h
  | some found =>
      obtain ⟨mailbox, email⟩ := found
      refine Keeps.bind ?_ (fun credentials => ?_) s h
      · unfold decrypted
        cases mailbox.credentials with
        | none => exact keeps_pure
        | some data =>
            dsimp only
            split
            · exact keeps_pure
            · exact attempt_keeps.bind fun _ => keeps_pure
      · cases env.adapters mailbox.provider with
        | none => exact keeps_throw
        | some adapter =>
            refine (hcall _ _).bind fun _ => ?_
            refine attempt_keeps.bind fun result => ?_
            refine (keeps_modify fun s h => hdrafts s _ h).bind fun _ => ?_
            refine hmark.bind fun _ => ?_
            exact hcommit.bind fun _ => keeps_pure

/-- It hands over and marks the row it was given. -/
theorem sendRow_keeps
    (hcall : ∀ mailbox handed, P (.callProvider draft.id mailbox handed))
    (hmark : P (.markSent draft.id)) (hcommit : P .commit) :
    Keeps (Added P s₀) (sendRow env draft) :=
  sendRow_keeps_of (fun _ _ => emit_keeps (hcall _ _)) (emit_keeps hmark)
    (emit_keeps hcommit) fun _ _ h => ⟨h.files, h.effects⟩

/-- Nothing takes an effect back. -/
theorem mem_effects_bind {α β : Type} {x : ToolM α} {f : α → ToolM β}
    (hx : e ∈ (run x s).2.effects)
    (hf : ∀ a s₀, Keeps (Added (fun _ => True) s₀) (f a)) :
    e ∈ (run (x >>= f) s).2.effects := by
  rw [run_bind]
  cases hrun : run x s with
  | mk r s' =>
      rw [hrun] at hx
      cases r with
      | ok a => exact (hf a s' s' .refl).mem hx
      | error error => exact hx

/-- The blob of a file that has one is read. -/
theorem rawBytes_reads (huri : (s.t.files att.id).rawUri = some uri)
    (hne : uri ≠ "") :
    Effect.readBlob uri ∈ (run (rawBytes att) s).2.effects := by
  have hor : orText (s.t.files att.id).rawUri "" = uri := by
    rw [huri]
    exact if_neg hne
  unfold rawBytes query
  rw [run_bind]
  show _ ∈ (run (if orText (s.t.files att.id).rawUri "" = "" then _
    else _) s).2.effects
  rw [hor, if_neg hne]
  refine mem_effects_bind (List.mem_append_right _ ?_) fun _ s₀ => ?_
  · exact List.mem_singleton.mpr (congrArg _ hor.symm)
  refine query_keeps fun s h => ?_
  split
  · exact h
  · exact h

/-- No artifact of the session has the key. -/
def KeyFree (artifacts : Table Artifact) (sid : Uuid) (k : String) :
    Prop :=
  ∀ r ∈ artifacts.rows, r.sessionId = sid → r.key ≠ k

theorem run_skip {k : String} {preview : Option String} {sid : Uuid}
    (h : KeyFree s.t.db.artifacts sid k) :
    run (skipIfArtifactExists env sid k preview) s = (.ok none, s) := by
  have hnone : s.t.db.artifacts.rows.filter
      (readMatches sid (.key k) none) = [] := by
    refine List.filter_eq_nil_iff.mpr fun r hr hmatch => ?_
    obtain ⟨hsid, hkey, -⟩ := of_decide_eq_true hmatch
    exact h r hr hsid hkey
  unfold skipIfArtifactExists readKey
  rw [run_query_bind, read_none hnone]
  rfl

/-- An attachment that has not been worked on is read. -/
theorem extractAttachment_reads
    (hfree : KeyFree s.t.db.artifacts caller.sessionId
      ("extracted_data/" ++ if att.name = "" then "attachment"
        else att.name))
    (huri : (s.t.files att.id).rawUri = some uri) (hne : uri ≠ "") :
    Effect.readBlob uri
      ∈ (run (extractAttachment env caller att) s).2.effects := by
  unfold extractAttachment
  rw [run_bind, run_skip hfree]
  refine mem_effects_bind (rawBytes_reads huri hne) fun data s₀ => ?_
  refine query_keeps fun s h => ?_
  refine attempt_keeps.bind (fun result => ?_) s h
  refine (writeArtifact_keeps fun _ => trivial).bind fun _ => ?_
  refine (writeArtifact_keeps fun _ => trivial).bind fun _ => ?_
  exact (emit_keeps trivial).bind fun _ => keeps_pure

theorem analyzeAttachment_reads
    (hfree : KeyFree s.t.db.artifacts caller.sessionId
      ("image_analysis/" ++ if att.name = "" then "image" else att.name))
    (huri : (s.t.files att.id).rawUri = some uri) (hne : uri ≠ "") :
    Effect.readBlob uri
      ∈ (run (analyzeAttachment env caller att) s).2.effects := by
  unfold analyzeAttachment
  rw [run_bind, run_skip hfree]
  refine mem_effects_bind (rawBytes_reads huri hne) fun data s₀ => ?_
  refine query_keeps fun s h => ?_
  refine attempt_keeps.bind (fun result => ?_) s h
  refine (writeArtifact_keeps fun _ => trivial).bind fun _ => ?_
  exact (emit_keeps trivial).bind fun _ => keeps_pure

/-- The credentials are decrypted, or the call ends there. -/
theorem run_decrypted {mailbox : Mailbox} :
    (Decrypts env mailbox
        ∧ ∃ credentials, run (decrypted env mailbox) s
          = (.ok credentials, s))
      ∨ (¬ Decrypts env mailbox
        ∧ ∃ text, run (decrypted env mailbox) s
          = (.error (.decrypt text), s)) := by
  unfold Decrypts decrypted
  cases mailbox.credentials with
  | none =>
      refine Or.inl ⟨fun data h => ?_, _, rfl⟩
      cases h
  | some data =>
      dsimp only
      by_cases hempty : data = []
      · rw [if_pos hempty]
        refine Or.inl ⟨fun data' h hne => ?_, _, rfl⟩
        injection h with h
        exact absurd (h.symm.trans hempty) hne
      · rw [if_neg hempty]
        cases hresult : env.decrypt data with
        | ok credentials =>
            refine Or.inl ⟨fun data' h _ => ?_, _, rfl⟩
            injection h with h
            exact ⟨credentials, h ▸ hresult⟩
        | error text =>
            refine Or.inr ⟨fun h => ?_, text, rfl⟩
            obtain ⟨credentials, hok⟩ := h data rfl hempty
            rw [hresult] at hok
            cases hok

/-- A draft that is handed over is among the effects. -/
theorem sendRow_calls (h : HandedOver env s.t draft) :
    ∃ mailbox handed, Effect.callProvider draft.id mailbox handed
      ∈ (run (sendRow env draft) s).2.effects := by
  obtain ⟨mailbox, email, hfound, hdecrypts, hknown⟩ := h
  obtain ⟨adapter, hadapter⟩ := Option.isSome_iff_exists.mp hknown
  obtain ⟨-, credentials, hcredentials⟩ :=
    run_decrypted.resolve_right fun hfails => hfails.1 hdecrypts
  refine ⟨mailbox, providerDraft draft email, ?_⟩
  unfold sendRow
  rw [run_query_bind, hfound]
  dsimp only
  rw [run_bind, hcredentials]
  dsimp only
  rw [hadapter]
  refine mem_effects_bind (List.mem_append_right _ (.head _)) fun _ s₀ => ?_
  refine attempt_keeps.bind fun result => ?_
  refine (keeps_modify fun _ h => ⟨h.files, h.effects⟩).bind fun _ => ?_
  refine (emit_keeps trivial).bind fun _ => ?_
  exact (emit_keeps trivial).bind fun _ => keeps_pure

/-- A draft that is not handed over changes nothing. -/
theorem sendRow_stays (h : ¬ HandedOver env s.t draft) :
    (run (sendRow env draft) s).2 = s := by
  unfold sendRow
  rw [run_query_bind]
  cases hfound : resolveMailbox s.t draft.sessionId with
  | none => rfl
  | some found =>
      obtain ⟨mailbox, email⟩ := found
      dsimp only
      rw [run_bind]
      rcases run_decrypted with
        ⟨hdecrypts, credentials, hrun⟩ | ⟨-, text, hrun⟩
      · rw [hrun]
        dsimp only
        cases hadapter : env.adapters mailbox.provider with
        | none => rfl
        | some adapter =>
            refine absurd ⟨mailbox, email, hfound, hdecrypts, ?_⟩ h
            rw [hadapter]
            rfl
      · rw [hrun]

/-- A row that was read raises no `NoResultFound`. -/
theorem sendRow_found :
    (run (sendRow env draft) s).1 ≠ .error .noResultFound := by
  have hends : Ends (sendRow env draft) (fun _ _ => True)
      (fun e _ => e ≠ ToolError.noResultFound) s := by
    unfold sendRow query
    rw [ends_bind, ends_bind, ends_get, ends_pure]
    dsimp only
    cases resolveMailbox s.t draft.sessionId with
    | none => exact ends_pure.mpr trivial
    | some found =>
        obtain ⟨mailbox, email⟩ := found
        dsimp only
        rw [ends_bind]
        rcases run_decrypted with ⟨-, credentials, hrun⟩ | ⟨-, text, hrun⟩
        · refine ends_of_ok hrun ?_
          cases env.adapters mailbox.provider with
          | none => exact ends_throw.mpr fun h => by cases h
          | some adapter =>
              refine ends_bind.mpr (ends_modify.mpr (ends_bind.mpr ?_))
              unfold attempt
              cases adapter mailbox credentials
                  (providerDraft draft email) with
              | ok result => exact ends_pure.mpr trivial
              | error text => exact ends_throw.mpr fun h => by cases h
        · exact ends_of_error hrun fun h => by cases h
  exact fun hraised => hends.error hraised rfl

end Effects

end LegalBot.Tools
