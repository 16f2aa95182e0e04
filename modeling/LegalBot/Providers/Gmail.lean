/-
`providers/gmail.py`: the headers, the MIME walk, `_gmail_to_raw` and
`list_new_messages`.

# Replies

A reply of the API is typed as the API documents it; a key that a reply
may leave out is an `Option`. A call that raises is `none`, and so is a
conversion that does.

# The library

`Library` is what the module calls of `base64`, of the codecs, of `int`
and of `datetime`; nothing is assumed of it.
-/
import LegalBot.Ingestion.Email
import LegalBot.Json.Members
import LegalBot.Memory.Ontology
import LegalBot.Providers.Base

namespace LegalBot.Gmail

open Mail (Bytes RawAttachment RawMessage)
open Memory (Texts splitSpaces)
open Providers (given memberText cursorWith cursorText)

-- ================================================================ messages

/-- One of `payload.headers`. -/
structure Header where
  name : Option String
  value : Option String
  deriving DecidableEq, Repr

/-- `MessagePartBody`. -/
structure PartBody where
  data : Option String
  attachmentId : Option String
  size : Option Int
  deriving DecidableEq, Repr

/-- `MessagePart`. -/
inductive Part where
  | mk (mimeType filename : Option String) (headers : List Header)
      (body : PartBody) (parts : List Part)

/-- `{}`. -/
def Part.empty : Part := .mk none none [] ⟨none, none, none⟩ []

def Part.headers : Part → List Header
  | .mk _ _ headers _ _ => headers

def Part.body : Part → PartBody
  | .mk _ _ _ body _ => body

/-- `p.get("mimeType", "")`. -/
def Part.mime : Part → String
  | .mk mimeType _ _ _ _ => mimeType.getD ""

/-- `p.get("filename") or "attachment"`. -/
def Part.name : Part → String
  | .mk _ filename _ _ _ =>
      match filename with
      | none => "attachment"
      | some name => if name = "" then "attachment" else name

/-- `Message`, of `users.messages.get(format="full")`. -/
structure Message where
  id : Option String
  threadId : Option String
  payload : Option Part
  internalDate : Option String
  snippet : Option String

-- ================================================================= library

structure Library where
  urlsafeB64decode : String → Option Bytes
  /-- `.decode("utf-8", errors="replace")`. -/
  decodeReplace : Bytes → String
  int : String → Option Int
  /-- `datetime.fromtimestamp(ms / 1000, tz=UTC)`. -/
  fromMillis : Int → Option Time

/-- A library that is enough for messages without data and date. -/
def Library.bare : Library where
  urlsafeB64decode _ := none
  decodeReplace _ := ""
  int _ := none
  fromMillis _ := none

/-- `_b64url_decode`. -/
def b64urlDecode (lib : Library) (data : String) : Option Bytes :=
  let padding := String.ofList
    (List.replicate ((4 - data.length % 4) % 4) '=')
  lib.urlsafeB64decode (data ++ padding)

/-- The text of inline data. -/
def decodeData (lib : Library) (data : String) : Option String :=
  (b64urlDecode lib data).map lib.decodeReplace

-- ==================================================================== body

/-- `text`, `html` and `attachments` of `_extract_body`. -/
structure Body where
  text : Option String
  html : Option String
  attachments : List RawAttachment

/-- The attachment of a part. -/
def Part.attachment (p : Part) : Option RawAttachment :=
  (given p.body.attachmentId).map fun id =>
    { partId := id, name := p.name, mimeType := p.mime
      size := p.body.size, data := none }

/-- `_walk` on the part itself. -/
def visit (lib : Library) (p : Part) (acc : Body) : Option Body :=
  match given p.body.data with
  | some data =>
      if p.mime = "text/plain" ∧ acc.text = none then
        (decodeData lib data).map fun text => { acc with text := some text }
      else if p.mime = "text/html" ∧ acc.html = none then
        (decodeData lib data).map fun html => { acc with html := some html }
      else
        some { acc with
          attachments := acc.attachments ++ p.attachment.toList }
  | none =>
      some { acc with attachments := acc.attachments ++ p.attachment.toList }

mutual

/-- `_walk`. -/
def walk (lib : Library) : Part → Body → Option Body
  | .mk mimeType filename headers body parts, acc => do
      let acc ← visit lib (.mk mimeType filename headers body parts) acc
      walkParts lib parts acc

/-- Its loop over the parts. -/
def walkParts (lib : Library) : List Part → Body → Option Body
  | [], acc => some acc
  | part :: rest, acc => do
      let acc ← walk lib part acc
      walkParts lib rest acc

end

/-- `_extract_body`. -/
def extractBody (lib : Library) (payload : Part) : Option Body :=
  walk lib payload ⟨none, none, []⟩

-- ================================================================== message

/-- `_gmail_headers`: of a repeated name the last value. -/
def gmailHeaders (tx : Texts) (headers : List Header) :
    List (String × Json) :=
  headers.foldl (fun d h =>
    Json.setMember d (tx.lower (h.name.getD "")) (.str (h.value.getD ""))) []

/-- `[a.strip() for a in (value or "").split(",") if a.strip()]`. -/
def splitAddrs (value : Option String) : List String :=
  (((value.getD "").toList.splitOn ',').map fun a =>
    strip (String.ofList a)).filter (· ≠ "")

/-- `received_at` of `_gmail_to_raw`. -/
def receivedAt (lib : Library) (internalDate : Option String) :
    Option (Option Time) :=
  match given internalDate with
  | none => some none
  | some text => do
      let ms ← lib.int text
      if ms = 0 then some none else (lib.fromMillis ms).map some

/-- `_gmail_to_raw`. -/
def gmailToRaw (lib : Library) (tx : Texts) (msg : Message) :
    Option RawMessage := do
  let payload := msg.payload.getD .empty
  let headers := gmailHeaders tx payload.headers
  let body ← extractBody lib payload
  let receivedAt ← receivedAt lib msg.internalDate
  let id ← msg.id
  some
    { providerMessageId := id
      providerThreadId := msg.threadId
      subject := memberText headers "subject"
      bodyText := body.text
      bodyHtml := body.html
      fromAddr := memberText headers "from"
      toAddrs := splitAddrs (memberText headers "to")
      ccAddrs := splitAddrs (memberText headers "cc")
      bccAddrs := splitAddrs (memberText headers "bcc")
      inReplyTo := memberText headers "in-reply-to"
      references := splitSpaces ((memberText headers "references").getD "")
      headers := .obj headers
      receivedAt := receivedAt
      attachments := body.attachments
      raw := .obj
        [("gmail_id", (msg.id.map Json.str).getD .null),
          ("snippet", (msg.snippet.map Json.str).getD .null)] }

-- ================================================================== listing

/-- A record of `users.history.list`: its id and the ids of the messages
that it adds. -/
structure HistoryRecord where
  id : String
  messagesAdded : List (Option String)
  deriving DecidableEq, Repr

/-- A page of `users.history.list`. -/
structure HistoryPage where
  history : List HistoryRecord
  historyId : Option String
  nextPageToken : Option String
  deriving DecidableEq, Repr

/-- The calls of the API that the adapter makes. -/
structure Service where
  /-- `history().list(startHistoryId, pageToken)`; `_sync` gives no page
  token. -/
  historyList : String → Option String → Option HistoryPage
  messagesList : Option (List String)
  getProfile : Option (Option String)
  messagesGet : String → Option Message

/-- `Cursor(value={"history_id": …})`. -/
def cursorOf (historyId : Option String) : Json :=
  cursorWith "history_id" historyId

/-- `last_history_id`. -/
def lastHistoryId (cursor : Json) : Option String :=
  cursorText "history_id" cursor

/-- The ids that a page adds. -/
def HistoryPage.ids (page : HistoryPage) : List String :=
  page.history.flatMap fun h => h.messagesAdded.filterMap given

/-- The ids and the new history id of `_sync`. -/
def newIds (svc : Service) (cursor : Json) :
    Option (List String × Option String) :=
  match lastHistoryId cursor with
  | some start =>
      match svc.historyList start none with
      | some page => some (page.ids, some (page.historyId.getD start))
      | none => some ([], some start)
  | none => do
      let ids ← svc.messagesList
      let historyId ← svc.getProfile
      some (ids, historyId)

/-- `list_new_messages`. -/
def listNewMessages (lib : Library) (tx : Texts) (svc : Service)
    (cursor : Json) : Option (List RawMessage × Json) := do
  let (ids, newHistoryId) ← newIds svc cursor
  let messages ← ids.mapM fun id => do
    gmailToRaw lib tx (← svc.messagesGet id)
  some (messages, cursorOf newHistoryId)

end LegalBot.Gmail
