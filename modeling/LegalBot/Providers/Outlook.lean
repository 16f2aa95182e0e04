/-
`providers/outlook.py`: `_graph_to_raw` and the loop of
`list_new_messages`.

# The server

A server is a state and what it answers to a request in it, so it may
answer the same request differently each time. `none` is a request that
raises. `_ensure_fresh_token` comes before the loop; the token that it
gives is part of what the server is.

# The loop

A pass of `while True` is `turn`: it restarts from the full sync, follows
the next link, or ends. `sync` goes on for as long as its fuel lasts and
keeps the requests it made.
-/
import LegalBot.Ingestion.Email
import LegalBot.Memory.Ontology
import LegalBot.Providers.Base

namespace LegalBot.Outlook

open Mail (RawAttachment RawMessage)
open Memory (Texts)
open Providers (given cursorWith cursorText)

-- ================================================================ messages

/-- One of `attachments`. -/
structure GraphAttachment where
  id : Option String
  name : Option String
  contentType : Option String
  size : Option Int
  odataType : Option String

/-- A message of the API; the addresses are those of `emailAddress`. -/
structure GraphMessage where
  id : Option String
  conversationId : Option String
  subject : Option String
  content : Option String
  contentType : Option String
  fromAddr : Option String
  toRecipients : List (Option String)
  ccRecipients : List (Option String)
  receivedDateTime : Option String
  internetMessageHeaders : List (String × Option String)
  attachments : List GraphAttachment

/-- `datetime.fromisoformat`; `none` is its `ValueError`. -/
structure Library where
  fromisoformat : String → Option Time

/-- `s.replace("Z", "+00:00")`. -/
def replaceZ (s : String) : String :=
  String.ofList (s.toList.flatMap fun c =>
    if c = 'Z' then "+00:00".toList else [c])

/-- `x or default`. -/
def orElse (x : Option String) (default : String) : String :=
  (given x).getD default

/-- Whether `_graph_to_raw` takes the attachment. -/
def GraphAttachment.isFile (a : GraphAttachment) : Bool :=
  "fileAttachment".toList <:+ (a.odataType.getD "").toList

/-- The attachment of the message; `a["id"]` may raise. -/
def GraphAttachment.toRaw (a : GraphAttachment) : Option RawAttachment := do
  let id ← a.id
  some
    { partId := id
      name := orElse a.name "attachment"
      mimeType := orElse a.contentType "application/octet-stream"
      size := a.size
      data := none }

/-- `_graph_to_raw`. The headers of the API are a list, so `in_reply_to`
is never set. -/
def graphToRaw (lib : Library) (tx : Texts) (m : GraphMessage) :
    Option RawMessage := do
  let content := m.content.getD ""
  let contentType := tx.lower (m.contentType.getD "text")
  let attachments ← (m.attachments.filter (·.isFile)).mapM (·.toRaw)
  let id ← m.id
  some
    { providerMessageId := id
      providerThreadId := m.conversationId
      subject := m.subject
      bodyText := if contentType = "text" then some content else none
      bodyHtml := if contentType = "html" then some content else none
      fromAddr := m.fromAddr
      toAddrs := m.toRecipients.filterMap given
      ccAddrs := m.ccRecipients.filterMap given
      bccAddrs := []
      inReplyTo := none
      references := []
      headers := .obj (m.internetMessageHeaders.foldl (fun d h =>
        Json.setMember d h.1 ((h.2.map Json.str).getD .null)) [])
      receivedAt := (given m.receivedDateTime).bind fun text =>
        lib.fromisoformat (replaceZ text)
      attachments := attachments
      raw := .obj
        [("graph_id", (m.id.map Json.str).getD .null),
          ("conversation_id",
            (m.conversationId.map Json.str).getD .null)] }

-- ================================================================= replies

/-- The body of a delta reply. -/
structure DeltaPage where
  value : List GraphMessage
  nextLink : Option String
  deltaLink : Option String

/-- A reply; without a body, `resp.json()` raises. -/
structure Response where
  status : Nat
  body : Option DeltaPage

/-- `raise_for_status` raises unless the status is a 2xx. -/
def Response.isSuccess (r : Response) : Bool := 200 ≤ r.status ∧ r.status < 300

/-- What a request is answered with, and the state after it. -/
structure Server (σ : Type) where
  answer : σ → String → Option Response × σ

-- ================================================================= the loop

def fullSync : String :=
  "https://graph.microsoft.com/v1.0/me/messages/delta?$top=25"

/-- The variables of the loop. -/
structure Sync where
  url : String
  deltaLink : Option String
  messages : List RawMessage

/-- Before the loop. -/
def Sync.init (cursor : Json) : Sync :=
  let deltaLink := cursorText "delta_link" cursor
  ⟨deltaLink.getD fullSync, deltaLink, []⟩

/-- How a pass ends. -/
inductive Turn where
  | restart (s : Sync)
  | follow (s : Sync)
  | raised
  | returned (messages : List RawMessage) (cursor : Json)

/-- A pass, on the reply to its request. -/
def turn (lib : Library) (tx : Texts) (s : Sync) : Option Response → Turn
  | none => .raised
  | some resp =>
      if (resp.status = 410 ∨ resp.status = 404) ∧ s.deltaLink.isSome then
        .restart { s with url := fullSync, deltaLink := none }
      else if resp.isSuccess then
        match resp.body with
        | none => .raised
        | some page =>
            match page.value.mapM (graphToRaw lib tx) with
            | none => .raised
            | some more =>
                match given page.nextLink with
                | some next =>
                    .follow { s with
                      url := next, messages := s.messages ++ more }
                | none =>
                    .returned (s.messages ++ more)
                      (cursorWith "delta_link" page.deltaLink)
      else .raised

/-- A request that was made, its reply, and whether the loop restarted
on it. -/
structure Request where
  url : String
  reply : Option Response
  restarted : Bool

/-- How `list_new_messages` ends. -/
inductive Outcome where
  | raised
  | returned (messages : List RawMessage) (cursor : Json)

/-- The loop: the requests it makes and how it ends, if the fuel lasts. -/
def sync {σ : Type} (lib : Library) (tx : Texts) (srv : Server σ) :
    Nat → σ → Sync → Option (List Request × Outcome)
  | 0, _, _ => none
  | fuel + 1, w, s =>
      let reply := srv.answer w s.url
      match turn lib tx s reply.1 with
      | .raised => some ([⟨s.url, reply.1, false⟩], .raised)
      | .returned messages cursor =>
          some ([⟨s.url, reply.1, false⟩], .returned messages cursor)
      | .restart s' => do
          let (log, outcome) ← sync lib tx srv fuel reply.2 s'
          some (⟨s.url, reply.1, true⟩ :: log, outcome)
      | .follow s' => do
          let (log, outcome) ← sync lib tx srv fuel reply.2 s'
          some (⟨s.url, reply.1, false⟩ :: log, outcome)

/-- `list_new_messages`. -/
def listNewMessages {σ : Type} (lib : Library) (tx : Texts)
    (srv : Server σ) (fuel : Nat) (w : σ) (cursor : Json) :
    Option (List Request × Outcome) :=
  sync lib tx srv fuel w (.init cursor)

end LegalBot.Outlook
