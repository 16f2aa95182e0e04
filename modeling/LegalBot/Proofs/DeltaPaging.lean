/-
The delta paging of Outlook: the loop of `list_new_messages` ends, and
what it returns is complete.

# The measure

A pass that does not end the loop follows a next link or restarts. A
restart takes the delta link away, so there is one at most; between
restarts the passes follow a chain of pages, which is finite. `Ends` is
proved along a chain for a given delta link (`ends_chain`), first without
one, where nothing can restart, then with one.

# Completeness

A restart keeps the messages that were collected, so the messages of the
chain that ends stand at the end of what is returned, after those of the
chain that was given up (`Completed`).
-/
import LegalBot.Lib.Programs
import LegalBot.Providers.Outlook

namespace LegalBot.Outlook

open Mail (RawMessage)
open Memory (Texts)
open Providers (given cursorWith)

variable {σ : Type} {lib : Library} {tx : Texts} {srv : Server σ}

-- =================================================================== chains

/-- The request that the next link of a page leads to. -/
def Server.Follows (srv : Server σ) (q p : σ × String) : Prop :=
  ∃ resp page, srv.answer p.1 p.2 = (some resp, q.1)
    ∧ resp.isSuccess = true ∧ resp.body = some page
    ∧ given page.nextLink = some q.2

/-- The requests of a chain from a url to a page without a next link, and
its pages. -/
inductive Chain : String → List Request → List DeltaPage → Prop
  | last {url resp page} :
      resp.isSuccess = true → resp.body = some page →
      given page.nextLink = none →
      Chain url [⟨url, some resp, false⟩] [page]
  | more {url resp page next rest pages} :
      resp.isSuccess = true → resp.body = some page →
      given page.nextLink = some next → Chain next rest pages →
      Chain url (⟨url, some resp, false⟩ :: rest) (page :: pages)

/-- The replies of the requests are the server's. -/
def Server.Answers (srv : Server σ) : σ → List Request → Prop
  | _, [] => True
  | w, r :: rest =>
      (srv.answer w r.url).1 = r.reply
        ∧ srv.Answers (srv.answer w r.url).2 rest

/-- What a run that has collected `had` returns is that of the chain that
ended: one from `start` if there was no restart, else one from the full
sync. The cursor holds the delta link of its last page, and the messages
of its pages stand, in order, at the end of the messages. -/
def Completed (lib : Library) (tx : Texts) (start : String)
    (had : List RawMessage) (log : List Request)
    (messages : List RawMessage) (cursor : Json) : Prop :=
  ∃ before chain url pages final converted,
    log = before ++ chain ∧ Chain url chain pages
      ∧ pages.getLast? = some final
      ∧ cursor = cursorWith "delta_link" final.deltaLink
      ∧ (pages.flatMap (·.value)).mapM (graphToRaw lib tx) = some converted
      ∧ (before = [] ∧ url = start ∧ messages = had ++ converted
        ∨ url = fullSync ∧ (∃ b r, before = b ++ [r] ∧ r.restarted = true)
          ∧ converted <:+ messages)

-- =================================================================== passes

/-- What a pass does. -/
inductive Turned (lib : Library) (tx : Texts) (s : Sync) :
    Option Response → Turn → Prop
  | raised {reply} : Turned lib tx s reply .raised
  | restart {resp} : s.deltaLink.isSome = true →
      Turned lib tx s (some resp)
        (.restart { s with url := fullSync, deltaLink := none })
  | follow {resp page more next} :
      resp.isSuccess = true → resp.body = some page →
      page.value.mapM (graphToRaw lib tx) = some more →
      given page.nextLink = some next →
      Turned lib tx s (some resp)
        (.follow { s with url := next, messages := s.messages ++ more })
  | returned {resp page more} :
      resp.isSuccess = true → resp.body = some page →
      page.value.mapM (graphToRaw lib tx) = some more →
      given page.nextLink = none →
      Turned lib tx s (some resp)
        (.returned (s.messages ++ more)
          (cursorWith "delta_link" page.deltaLink))

theorem turn_cases (lib : Library) (tx : Texts) (s : Sync)
    (reply : Option Response) :
    Turned lib tx s reply (turn lib tx s reply) := by
  cases reply with
  | none => exact .raised
  | some resp =>
      unfold turn
      dsimp only
      split
      · rename_i hgone
        exact .restart hgone.2
      · split
        · rename_i hok
          cases hbody : resp.body with
          | none => exact .raised
          | some page =>
              dsimp only
              cases hmore : page.value.mapM (graphToRaw lib tx) with
              | none => exact .raised
              | some more =>
                  dsimp only
                  cases hnext : given page.nextLink with
                  | none => exact .returned hok hbody hmore hnext
                  | some next => exact .follow hok hbody hmore hnext
        · exact .raised

-- ============================================================== termination

/-- Some fuel is enough. -/
def Ends (lib : Library) (tx : Texts) (srv : Server σ) (w : σ)
    (s : Sync) : Prop :=
  ∃ n result, sync lib tx srv n w s = some result

/-- More fuel changes nothing. -/
theorem sync_succ {n : Nat} {w : σ} {s : Sync}
    {result : List Request × Outcome}
    (h : sync lib tx srv n w s = some result) :
    sync lib tx srv (n + 1) w s = some result := by
  induction n generalizing w s result with
  | zero => cases h
  | succ n ih =>
      rw [sync] at h ⊢
      dsimp only at h ⊢
      cases hturn : turn lib tx s (srv.answer w s.url).1 with
      | raised =>
          rw [hturn] at h
          exact h
      | returned messages cursor =>
          rw [hturn] at h
          exact h
      | restart s' =>
          rw [hturn] at h
          obtain ⟨rest, hrest, heq⟩ := Option.bind_eq_some_iff.mp h
          exact Option.bind_eq_some_iff.mpr ⟨rest, ih hrest, heq⟩
      | follow s' =>
          rw [hturn] at h
          obtain ⟨rest, hrest, heq⟩ := Option.bind_eq_some_iff.mp h
          exact Option.bind_eq_some_iff.mpr ⟨rest, ih hrest, heq⟩

theorem sync_le {n fuel : Nat} {w : σ} {s : Sync}
    {result : List Request × Outcome} (hle : n ≤ fuel)
    (h : sync lib tx srv n w s = some result) :
    sync lib tx srv fuel w s = some result := by
  induction hle with
  | refl => exact h
  | step _ ih => exact sync_succ ih

/-- The loop ends if it ends after this pass. -/
theorem ends_turn {w : σ} {s : Sync}
    (h : ∀ s', turn lib tx s (srv.answer w s.url).1 = .restart s'
        ∨ turn lib tx s (srv.answer w s.url).1 = .follow s' →
      Ends lib tx srv (srv.answer w s.url).2 s') :
    Ends lib tx srv w s := by
  cases hturn : turn lib tx s (srv.answer w s.url).1 with
  | raised => exact ⟨1, _, by rw [sync, hturn]⟩
  | returned messages cursor => exact ⟨1, _, by rw [sync, hturn]⟩
  | restart s' =>
      obtain ⟨n, result, hends⟩ := h s' (.inl hturn)
      refine ⟨n + 1, (⟨s.url, (srv.answer w s.url).1, true⟩ :: result.1,
        result.2), ?_⟩
      rw [sync]
      dsimp only
      rw [hturn]
      dsimp only
      rw [hends]
      rfl
  | follow s' =>
      obtain ⟨n, result, hends⟩ := h s' (.inr hturn)
      refine ⟨n + 1, (⟨s.url, (srv.answer w s.url).1, false⟩ :: result.1,
        result.2), ?_⟩
      rw [sync]
      dsimp only
      rw [hturn]
      dsimp only
      rw [hends]
      rfl

/-- The loop ends along a chain if it ends after each restart from it. -/
theorem ends_chain (hfinite : WellFounded srv.Follows)
    {deltaLink : Option String}
    (hrestart : deltaLink.isSome = true → ∀ w s, s.deltaLink = none →
      Ends lib tx srv w s)
    (p : σ × String) :
    ∀ s : Sync, s.url = p.2 → s.deltaLink = deltaLink →
      Ends lib tx srv p.1 s := by
  induction p using hfinite.induction with
  | h p ih =>
      intro s hurl hdelta
      refine ends_turn fun s' hturn => ?_
      have hcase := turn_cases lib tx s (srv.answer p.1 s.url).1
      rcases hturn with hturn | hturn
      · rw [hturn] at hcase
        generalize (srv.answer p.1 s.url).1 = reply at hcase
        cases hcase with
        | restart hsome =>
            rw [hdelta] at hsome
            exact hrestart hsome _ _ rfl
      · rw [hturn] at hcase
        cases hreply : (srv.answer p.1 s.url).1 with
        | none =>
            rw [hreply] at hcase
            cases hcase
        | some resp =>
            rw [hreply] at hcase
            cases hcase with
            | follow hok hbody hmore hnext =>
                refine ih ((srv.answer p.1 s.url).2, _)
                  ⟨resp, _, ?_, hok, hbody, hnext⟩ _ rfl hdelta
                rw [← hurl, ← hreply]

theorem sync_ends (lib : Library) (tx : Texts)
    (hfinite : WellFounded srv.Follows) (w : σ) (s : Sync) :
    Ends lib tx srv w s := by
  have hfull : ∀ w s, s.deltaLink = none → Ends lib tx srv w s :=
    fun w s hnone => ends_chain hfinite (fun h => by cases h) (w, s.url) s rfl
      hnone
  exact ends_chain hfinite (fun _ => hfull) (w, s.url) s rfl rfl

-- ===================================================================== runs

/-- The runs of the loop, pass by pass. -/
inductive Run (lib : Library) (tx : Texts) (srv : Server σ) :
    σ → Sync → List Request → Outcome → Prop
  | raised {w s} :
      Run lib tx srv w s [⟨s.url, (srv.answer w s.url).1, false⟩] .raised
  | returned {w s w' resp page more} :
      srv.answer w s.url = (some resp, w') →
      resp.isSuccess = true → resp.body = some page →
      page.value.mapM (graphToRaw lib tx) = some more →
      given page.nextLink = none →
      Run lib tx srv w s [⟨s.url, some resp, false⟩]
        (.returned (s.messages ++ more)
          (cursorWith "delta_link" page.deltaLink))
  | restart {w s w' resp log outcome} :
      srv.answer w s.url = (some resp, w') →
      s.deltaLink.isSome = true →
      Run lib tx srv w' { s with url := fullSync, deltaLink := none }
        log outcome →
      Run lib tx srv w s (⟨s.url, some resp, true⟩ :: log) outcome
  | follow {w s w' resp page more next log outcome} :
      srv.answer w s.url = (some resp, w') →
      resp.isSuccess = true → resp.body = some page →
      page.value.mapM (graphToRaw lib tx) = some more →
      given page.nextLink = some next →
      Run lib tx srv w' { s with url := next, messages := s.messages ++ more }
        log outcome →
      Run lib tx srv w s (⟨s.url, some resp, false⟩ :: log) outcome

theorem sync_run {n : Nat} {w : σ} {s : Sync} {log : List Request}
    {outcome : Outcome} (h : sync lib tx srv n w s = some (log, outcome)) :
    Run lib tx srv w s log outcome := by
  induction n generalizing w s log with
  | zero => cases h
  | succ n ih =>
      rw [sync] at h
      dsimp only at h
      have hcase := turn_cases lib tx s (srv.answer w s.url).1
      cases hanswer : srv.answer w s.url with
      | mk reply w' =>
          rw [hanswer] at h hcase
          dsimp only at h hcase
          generalize turn lib tx s reply = t at h hcase
          cases hcase with
          | raised =>
              cases h
              have hraised : Run lib tx srv w s
                  [⟨s.url, (srv.answer w s.url).1, false⟩] .raised := .raised
              rwa [hanswer] at hraised
          | returned hok hbody hmore hnext =>
              cases h
              exact .returned hanswer hok hbody hmore hnext
          | restart hsome =>
              obtain ⟨rest, hrest, heq⟩ := Option.bind_eq_some_iff.mp h
              cases heq
              exact .restart hanswer hsome (ih hrest)
          | follow hok hbody hmore hnext =>
              obtain ⟨rest, hrest, heq⟩ := Option.bind_eq_some_iff.mp h
              cases heq
              exact .follow hanswer hok hbody hmore hnext (ih hrest)

section Runs

variable {w : σ} {s : Sync} {log : List Request} {outcome : Outcome}
  {messages : List RawMessage} {cursor : Json}

/-- A restart takes the delta link that allows it. -/
theorem Run.restarts (h : Run lib tx srv w s log outcome) :
    log.countP (·.restarted) ≤ if s.deltaLink.isSome then 1 else 0 := by
  induction h with
  | raised => exact Nat.zero_le _
  | returned _ _ _ _ _ => exact Nat.zero_le _
  | restart _ hsome _ ih =>
      rw [List.countP_cons_of_pos rfl, if_pos hsome]
      exact Nat.succ_le_succ ih
  | follow _ _ _ _ _ _ ih =>
      rw [List.countP_cons_of_neg Bool.false_ne_true]
      exact ih

theorem Run.answers (h : Run lib tx srv w s log outcome) :
    srv.Answers w log := by
  induction h with
  | raised => exact ⟨rfl, trivial⟩
  | returned hanswer _ _ _ _ => exact ⟨congrArg Prod.fst hanswer, trivial⟩
  | restart hanswer _ _ ih =>
      refine ⟨congrArg Prod.fst hanswer, ?_⟩
      rw [hanswer]
      exact ih
  | follow hanswer _ _ _ _ _ ih =>
      refine ⟨congrArg Prod.fst hanswer, ?_⟩
      rw [hanswer]
      exact ih

end Runs

-- ============================================================= completeness

section Completeness

variable {w : σ} {s : Sync} {log : List Request} {outcome : Outcome}
  {messages more had : List RawMessage} {cursor : Json} {page : DeltaPage}
  {resp : Response} {url next start : String}

/-- The page of a chain that ends at once. -/
theorem completed_last (hok : resp.isSuccess = true)
    (hbody : resp.body = some page)
    (hmore : page.value.mapM (graphToRaw lib tx) = some more)
    (hnext : given page.nextLink = none) :
    Completed lib tx url had [⟨url, some resp, false⟩] (had ++ more)
      (cursorWith "delta_link" page.deltaLink) := by
  refine ⟨[], _, url, [page], page, more, rfl, .last hok hbody hnext, rfl, rfl,
    ?_, .inl ⟨rfl, rfl, rfl⟩⟩
  rw [List.flatMap_singleton]
  exact hmore

/-- A page before the rest of its chain, or before one that is given
up. -/
theorem Completed.follow (hok : resp.isSuccess = true)
    (hbody : resp.body = some page)
    (hmore : page.value.mapM (graphToRaw lib tx) = some more)
    (hnext : given page.nextLink = some next)
    (h : Completed lib tx next (had ++ more) log messages cursor) :
    Completed lib tx url had (⟨url, some resp, false⟩ :: log) messages
      cursor := by
  obtain ⟨before, chain, curl, pages, final, converted, rfl, hchain, hlast,
    hcursor, hconverted, hwhere⟩ := h
  rcases hwhere with ⟨rfl, rfl, hmessages⟩ | ⟨hfull, ⟨b, r, rfl, hr⟩, hsuffix⟩
  · refine ⟨[], _, url, page :: pages, final, more ++ converted, rfl,
      .more hok hbody hnext hchain, ?_, hcursor, ?_, .inl ⟨rfl, rfl, ?_⟩⟩
    · rw [List.getLast?_cons, hlast, Option.getD_some]
    · rw [List.flatMap_cons, List.mapM_append, hmore, hconverted]
      rfl
    · rw [hmessages, List.append_assoc]
  · refine ⟨_ :: (b ++ [r]), chain, curl, pages, final, converted, rfl, hchain,
      hlast, hcursor, hconverted, .inr ⟨hfull, ⟨_ :: b, r, rfl, hr⟩, hsuffix⟩⟩

/-- A request that restarts gives up what came before. -/
theorem Completed.restart
    (h : Completed lib tx fullSync had log messages cursor) :
    Completed lib tx start had (⟨url, some resp, true⟩ :: log) messages
      cursor := by
  obtain ⟨before, chain, curl, pages, final, converted, rfl, hchain, hlast,
    hcursor, hconverted, hwhere⟩ := h
  refine ⟨_ :: before, chain, curl, pages, final, converted, rfl, hchain,
    hlast, hcursor, hconverted, .inr ?_⟩
  rcases hwhere with ⟨rfl, rfl, rfl⟩ | ⟨hfull, ⟨b, r, rfl, hr⟩, hsuffix⟩
  · exact ⟨rfl, ⟨[], _, rfl, rfl⟩, List.suffix_append _ _⟩
  · exact ⟨hfull, ⟨_ :: b, r, rfl, hr⟩, hsuffix⟩

theorem Run.completed (h : Run lib tx srv w s log outcome)
    (hreturned : outcome = .returned messages cursor) :
    Completed lib tx s.url s.messages log messages cursor := by
  induction h with
  | raised => cases hreturned
  | returned _ hok hbody hmore hnext =>
      cases hreturned
      exact completed_last hok hbody hmore hnext
  | restart _ _ _ ih => exact (ih hreturned).restart
  | follow _ hok hbody hmore hnext _ ih =>
      exact (ih hreturned).follow hok hbody hmore hnext

end Completeness

-- ============================================================ delta paging

/-- Where every chain of next links is finite the loop ends: it makes
finitely many requests, restarts from the full sync at most once, and
raises or returns what the chain that ended has. -/
theorem delta_paging (lib : Library) (tx : Texts)
    (hfinite : WellFounded srv.Follows) (w : σ) (cursor : Json) :
    ∃ n log outcome,
      (∀ fuel, n ≤ fuel →
        listNewMessages lib tx srv fuel w cursor = some (log, outcome))
      ∧ srv.Answers w log
      ∧ log.countP (·.restarted) ≤ 1
      ∧ ∀ messages cursor', outcome = .returned messages cursor' →
        Completed lib tx (Sync.init cursor).url [] log messages cursor' := by
  obtain ⟨n, ⟨log, outcome⟩, hsync⟩ :=
    sync_ends lib tx hfinite w (.init cursor)
  have hrun := sync_run hsync
  refine ⟨n, log, outcome, fun fuel hle => sync_le hle hsync, hrun.answers,
    ?_, fun messages cursor' hreturned => hrun.completed hreturned⟩
  refine hrun.restarts.trans ?_
  split
  · exact Nat.le_refl 1
  · exact Nat.zero_le 1

/-- A server whose full sync is two pages, and that has forgotten every
other url. -/
def twoPageServer : Server Unit where
  answer _ url :=
    if url = fullSync then (some ⟨200, some ⟨[], some "page2", none⟩⟩, ())
    else if url = "page2" then
      (some ⟨200, some ⟨[], none, some "delta2"⟩⟩, ())
    else (some ⟨410, none⟩, ())

/-- Only the first page is followed by another. -/
theorem twoPageServer_finite : WellFounded twoPageServer.Follows := by
  refine Subrelation.wf (fun {q p} h => ?_)
    (measure fun p : Unit × String => if p.2 = fullSync then 1 else 0).wf
  obtain ⟨resp, page, hanswer, hok, hbody, hnext⟩ := h
  have hreply := congrArg Prod.fst hanswer
  unfold twoPageServer at hreply
  dsimp only at hreply
  show (if q.2 = fullSync then 1 else 0) < if p.2 = fullSync then 1 else 0
  split at hreply
  · rename_i hfull
    cases hreply
    cases hbody
    have hq : "page2" = q.2 := Option.some.inj hnext
    rw [if_pos hfull, ← hq]
    decide
  · split at hreply
    · cases hreply
      cases hbody
      cases hnext
    · cases hreply
      cases hbody

theorem twoPageServer_paging :
    ∃ n log outcome,
      (∀ fuel, n ≤ fuel →
        listNewMessages ⟨fun _ => none⟩ .sample twoPageServer fuel ()
          (cursorWith "delta_link" (some "delta1")) = some (log, outcome))
      ∧ twoPageServer.Answers () log
      ∧ log.countP (·.restarted) ≤ 1
      ∧ ∀ messages cursor', outcome = .returned messages cursor' →
        Completed ⟨fun _ => none⟩ .sample
          (Sync.init (cursorWith "delta_link" (some "delta1"))).url [] log
          messages cursor' :=
  delta_paging _ _ twoPageServer_finite () _

end LegalBot.Outlook
