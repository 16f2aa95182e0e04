/-
The incremental listing of Gmail against a history in pages.

`list_new_messages` asks `users.history.list` once, for the first page,
and takes the current history id of the mailbox as its new cursor. What
the later pages add is then before the cursor and was never returned. So
a listing is complete, and its cursor safe, just when the call fails (the
cursor stays where it was) or the later pages add nothing that the first
does not: `listing_iff`.
-/
import LegalBot.Lib.Programs
import LegalBot.Providers.Gmail

namespace LegalBot.Gmail

open Mail (RawMessage)
open Memory (Texts)
open Providers (given cursorText_cursorWith given_given)

-- =================================================================== server

/-- The history of a mailbox; `number` orders the history ids. -/
structure History where
  records : List HistoryRecord
  number : String → Nat
  current : String
  nonempty : current ≠ ""
  bounded : ∀ r ∈ records, number r.id ≤ number current

/-- The history after an id. -/
def History.after (m : History) (start : String) : List HistoryRecord :=
  m.records.filter fun r => m.number start < m.number r.id

/-- The ids of the messages that a record adds. -/
def HistoryRecord.ids (r : HistoryRecord) : List String :=
  r.messagesAdded.filterMap given

/-- The pages that `nextPageToken` links, each with the current history
id. -/
inductive Pages (svc : Service) (current start : String) :
    Option String → List HistoryPage → Prop
  | last {token page} :
      svc.historyList start token = some page →
      page.historyId = some current → page.nextPageToken = none →
      Pages svc current start token [page]
  | more {token page next rest} :
      svc.historyList start token = some page →
      page.historyId = some current → page.nextPageToken = some next →
      Pages svc current start (some next) rest →
      Pages svc current start token (page :: rest)

/-- The service answers for the mailbox: if the history call returns, the
pages from it on are the history after the id; and a message that is
fetched is the one asked for. -/
structure Serves (svc : Service) (m : History) (start : String) : Prop where
  pages : svc.historyList start none ≠ none →
    ∃ pages, Pages svc m.current start none pages
      ∧ pages.flatMap (·.history) = m.after start
  gets : ∀ id msg, svc.messagesGet id = some msg → msg.id = some id

/-- What `list_new_messages` owes: when the history call returns, every
message added after the id; and a history id as cursor that is not past a
record with a message that is not returned. -/
structure Listed (svc : Service) (m : History) (start : String)
    (out : List RawMessage × Json) : Prop where
  complete : svc.historyList start none ≠ none →
    ∀ r ∈ m.after start, ∀ id ∈ r.ids,
      id ∈ out.1.map (·.providerMessageId)
  safe : ∃ cursor, lastHistoryId out.2 = some cursor
    ∧ ∀ r ∈ m.after start, m.number r.id ≤ m.number cursor →
      ∀ id ∈ r.ids, id ∈ out.1.map (·.providerMessageId)

/-- The messages of a page can be fetched and converted. -/
def Fetchable (lib : Library) (tx : Texts) (svc : Service)
    (page : HistoryPage) : Prop :=
  ∀ id ∈ page.ids, ∃ msg raw,
    svc.messagesGet id = some msg ∧ gmailToRaw lib tx msg = some raw

-- ================================================================== listing

section Listing

variable {lib : Library} {tx : Texts} {svc : Service} {m : History}
  {start current : String} {token : Option String} {cursor : Json}
  {page : HistoryPage} {pages : List HistoryPage}
  {out : List RawMessage × Json}

theorem Pages.first (h : Pages svc current start token pages) :
    ∃ page rest, pages = page :: rest
      ∧ svc.historyList start token = some page
      ∧ page.historyId = some current := by
  cases h with
  | last hpage hid _ => exact ⟨_, [], rfl, hpage, hid⟩
  | more hpage hid _ _ => exact ⟨_, _, rfl, hpage, hid⟩

theorem mem_page_ids {id : String} :
    id ∈ page.ids ↔ ∃ r ∈ page.history, id ∈ r.ids := by
  unfold HistoryPage.ids HistoryRecord.ids
  rw [List.mem_flatMap]

/-- A message keeps its id. -/
theorem id_gmailToRaw {msg : Message} {raw : RawMessage}
    (hraw : gmailToRaw lib tx msg = some raw) :
    msg.id = some raw.providerMessageId := by
  simp only [gmailToRaw, Option.bind_eq_bind, Option.bind_eq_some_iff,
    Option.some.injEq] at hraw
  obtain ⟨body, -, receivedAt, -, id, hid, rfl⟩ := hraw
  exact hid

/-- A call that fails returns nothing and leaves the cursor. -/
theorem list_failed (hcursor : lastHistoryId cursor = some start)
    (hfails : svc.historyList start none = none) :
    listNewMessages lib tx svc cursor = some ([], cursorOf (some start)) := by
  unfold listNewMessages newIds
  rw [hcursor]
  dsimp only
  rw [hfails]
  rfl

/-- One that returns lists the first page. -/
theorem list_page (hcursor : lastHistoryId cursor = some start)
    (hpage : svc.historyList start none = some page)
    (hid : page.historyId = some current) :
    listNewMessages lib tx svc cursor = some out
      ↔ (page.ids.mapM fun id => do
          gmailToRaw lib tx (← svc.messagesGet id)) = some out.1
        ∧ out.2 = cursorOf (some current) := by
  unfold listNewMessages newIds
  rw [hcursor]
  dsimp only
  rw [hpage]
  dsimp only
  rw [hid, Option.getD_some]
  simp only [Option.bind_eq_bind, Option.bind_some, Option.bind_eq_some_iff,
    Option.some.injEq]
  constructor
  · rintro ⟨messages, hmessages, rfl⟩
    exact ⟨hmessages, rfl⟩
  · rintro ⟨hmessages, hcur⟩
    exact ⟨out.1, hmessages, by rw [← hcur]⟩

theorem fetched_iff {id : String} {raw : RawMessage} :
    (do gmailToRaw lib tx (← svc.messagesGet id)) = some raw
      ↔ ∃ msg, svc.messagesGet id = some msg
        ∧ gmailToRaw lib tx msg = some raw := by
  rw [Option.bind_eq_bind, Option.bind_eq_some_iff]

/-- And gives one message for each id of it. -/
theorem list_ids {messages : List RawMessage} {ids : List String}
    (hgets : ∀ id msg, svc.messagesGet id = some msg → msg.id = some id)
    (h : (ids.mapM fun id => do
      gmailToRaw lib tx (← svc.messagesGet id)) = some messages) :
    messages.map (·.providerMessageId) = ids := by
  have hall := Programs.mapM_some_iff.mp h
  clear h
  induction hall with
  | nil => rfl
  | cons hhead _ ih =>
      obtain ⟨msg, hget, hraw⟩ := fetched_iff.mp hhead
      have hid := id_gmailToRaw hraw
      rw [hgets _ msg hget] at hid
      rw [List.map_cons, ih, Option.some.inj hid]

theorem fetchable_iff :
    (∃ messages, (page.ids.mapM fun id => do
      gmailToRaw lib tx (← svc.messagesGet id)) = some messages)
      ↔ Fetchable lib tx svc page := by
  rw [Programs.exists_mapM_some]
  refine forall₂_congr fun id _ => ?_
  simp only [fetched_iff]
  exact exists_comm

/-- The tokens lead to one list of pages. -/
theorem Pages.unique {pages' : List HistoryPage}
    (h : Pages svc current start token pages)
    (h' : Pages svc current start token pages') : pages = pages' := by
  induction h generalizing pages' with
  | last hpage _ hend =>
      cases h' with
      | last hpage' _ _ =>
          rw [Option.some.inj (hpage.symm.trans hpage')]
      | more hpage' _ hnext' _ =>
          rw [← Option.some.inj (hpage.symm.trans hpage'), hend] at hnext'
          cases hnext'
  | more hpage _ hnext _ ih =>
      cases h' with
      | last hpage' _ hend' =>
          rw [← Option.some.inj (hpage.symm.trans hpage'), hnext] at hend'
          cases hend'
      | more hpage' _ hnext' hrest' =>
          have heq := Option.some.inj (hpage.symm.trans hpage')
          rw [← heq, hnext] at hnext'
          rw [← Option.some.inj hnext'] at hrest'
          rw [heq, ih hrest']

/-- A failed call keeps every record after the cursor. -/
theorem listed_failed (hcursor : lastHistoryId cursor = some start)
    (hfails : svc.historyList start none = none) :
    Listed svc m start ([], cursorOf (some start)) := by
  refine ⟨fun h => absurd hfails h, start, ?_, fun r hr hle => ?_⟩
  · exact cursorText_cursorWith.trans (given_given hcursor)
  · have hlt := (List.mem_filter.mp hr).2
    rw [decide_eq_true_eq] at hlt
    exact absurd hle (Nat.not_le.mpr hlt)

/-- A listing of the first page owes what the later pages add. -/
theorem listed_page {rest : List HistoryPage}
    (hcall : svc.historyList start none ≠ none)
    (hall : (page :: rest).flatMap (·.history) = m.after start)
    (hids : out.1.map (·.providerMessageId) = page.ids)
    (hcur : out.2 = cursorOf (some m.current)) :
    Listed svc m start out
      ↔ ∀ later ∈ rest, ∀ id ∈ later.ids, id ∈ page.ids := by
  constructor
  · intro h later hlater id hid
    obtain ⟨r, hr, hid⟩ := mem_page_ids.mp hid
    have hafter : r ∈ m.after start := by
      rw [← hall, List.mem_flatMap]
      exact ⟨later, List.mem_cons_of_mem _ hlater, hr⟩
    rw [← hids]
    exact h.complete hcall r hafter id hid
  · intro h
    have hcomplete : ∀ r ∈ m.after start, ∀ id ∈ r.ids,
        id ∈ out.1.map (·.providerMessageId) := by
      intro r hr id hid
      rw [← hall, List.mem_flatMap] at hr
      obtain ⟨later, hlater, hr⟩ := hr
      rw [hids]
      rcases List.mem_cons.mp hlater with rfl | hlater
      · exact mem_page_ids.mpr ⟨r, hr, hid⟩
      · exact h later hlater id (mem_page_ids.mpr ⟨r, hr, hid⟩)
    refine ⟨fun _ => hcomplete, m.current, ?_, fun r hr _ => hcomplete r hr⟩
    rw [hcur]
    exact cursorText_cursorWith.trans (if_neg m.nonempty)

/-- The incremental listing meets what it owes just when the history call
fails, or the messages of the first page can be fetched and the later
pages add no other. -/
theorem listing_iff (hserves : Serves svc m start)
    (hcursor : lastHistoryId cursor = some start) :
    (∃ out, listNewMessages lib tx svc cursor = some out
        ∧ Listed svc m start out)
      ↔ svc.historyList start none = none
        ∨ ∃ page rest, Pages svc m.current start none (page :: rest)
          ∧ Fetchable lib tx svc page
          ∧ ∀ later ∈ rest, ∀ id ∈ later.ids, id ∈ page.ids := by
  by_cases hfails : svc.historyList start none = none
  · refine ⟨fun _ => .inl hfails, fun _ => ?_⟩
    exact ⟨_, list_failed hcursor hfails, listed_failed hcursor hfails⟩
  · obtain ⟨pages, hpages, hall⟩ := hserves.pages hfails
    obtain ⟨page, rest, rfl, hpage, hid⟩ := hpages.first
    constructor
    · rintro ⟨out, hout, hlisted⟩
      obtain ⟨hmessages, hcur⟩ := (list_page hcursor hpage hid).mp hout
      have hids := list_ids hserves.gets hmessages
      exact .inr ⟨page, rest, hpages, fetchable_iff.mp ⟨_, hmessages⟩,
        (listed_page hfails hall hids hcur).mp hlisted⟩
    · rintro (hnone | ⟨page', rest', hpages', hfetch, hlater⟩)
      · exact absurd hnone hfails
      · have heq := hpages.unique hpages'
        cases heq
        obtain ⟨messages, hmessages⟩ := fetchable_iff.mpr hfetch
        have hids := list_ids hserves.gets hmessages
        refine ⟨(messages, cursorOf (some m.current)),
          (list_page hcursor hpage hid).mpr ⟨hmessages, rfl⟩, ?_⟩
        exact (listed_page hfails hall hids rfl).mpr hlater

end Listing

-- ================================================================= two pages

/-- Two records after the history id 10. -/
def inbox : History where
  records := [⟨"11", [some "m1"]⟩, ⟨"12", [some "m2"]⟩]
  number id := if id = "12" then 12 else if id = "11" then 11 else 10
  current := "12"
  nonempty := by decide
  bounded := by decide

/-- A service that has them on one page, and one that has a page each. -/
def onePage : Service where
  historyList _ _ := some ⟨inbox.records, some "12", none⟩
  messagesList := none
  getProfile := none
  messagesGet id := some ⟨some id, none, none, none, none⟩

def twoPages : Service where
  historyList _ token :=
    match token with
    | none => some ⟨[⟨"11", [some "m1"]⟩], some "12", some "next"⟩
    | some _ => some ⟨[⟨"12", [some "m2"]⟩], some "12", none⟩
  messagesList := none
  getProfile := none
  messagesGet id := some ⟨some id, none, none, none, none⟩

theorem onePage_serves : Serves onePage inbox "10" where
  pages _ := ⟨[⟨inbox.records, some "12", none⟩],
    .last rfl rfl rfl, by decide⟩
  gets id msg h := by
    cases h
    rfl

theorem twoPages_serves : Serves twoPages inbox "10" where
  pages _ := ⟨[⟨[⟨"11", [some "m1"]⟩], some "12", some "next"⟩,
      ⟨[⟨"12", [some "m2"]⟩], some "12", none⟩],
    .more rfl rfl rfl (.last rfl rfl rfl), by decide⟩
  gets id msg h := by
    cases h
    rfl

theorem onePage_listing :
    (∃ out, listNewMessages .bare .sample onePage (cursorOf (some "10"))
          = some out ∧ Listed onePage inbox "10" out)
      ↔ onePage.historyList "10" none = none
        ∨ ∃ page rest, Pages onePage inbox.current "10" none (page :: rest)
          ∧ Fetchable .bare .sample onePage page
          ∧ ∀ later ∈ rest, ∀ id ∈ later.ids, id ∈ page.ids :=
  listing_iff onePage_serves (by decide)

/-- The message on the second page is not returned. -/
theorem second_page_missed :
    ¬∀ (lib : Library) (tx : Texts) (svc : Service) (m : History)
        (start : String) (cursor : Json), Serves svc m start →
      lastHistoryId cursor = some start →
      ∀ out, listNewMessages lib tx svc cursor = some out →
        Listed svc m start out := by
  intro h
  have hcursor : lastHistoryId (cursorOf (some "10")) = some "10" := by decide
  obtain ⟨messages, hmessages⟩ :
      ∃ messages, (["m1"].mapM fun id => do
        gmailToRaw .bare .sample (← twoPages.messagesGet id))
          = some messages := ⟨_, rfl⟩
  have hids := list_ids twoPages_serves.gets hmessages
  have hpage : twoPages.historyList "10" none
      = some ⟨[⟨"11", [some "m1"]⟩], some "12", some "next"⟩ := rfl
  have hout : listNewMessages .bare .sample twoPages (cursorOf (some "10"))
      = some (messages, cursorOf (some "12")) :=
    (list_page hcursor hpage rfl).mpr ⟨hmessages, rfl⟩
  have hlisted := h .bare .sample twoPages inbox "10" _ twoPages_serves
    hcursor _ hout
  have hmem := hlisted.complete (by decide) ⟨"12", [some "m2"]⟩ (by decide)
    "m2" (by decide)
  rw [hids] at hmem
  exact absurd hmem (by decide)

end LegalBot.Gmail
