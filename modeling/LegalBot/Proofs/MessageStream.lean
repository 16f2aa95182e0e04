/-
The text a stream of a session yields, as server-sent events.

# One event a message

`stream_messages` pages through the rows of a session and yields one
event for each, whose data is a JSON object. `turn` is one turn of its
loop; the rows it has sent are the `seen` of the transcript
(`turn_read`).

# What a client has

A connection may break at any byte. The text is plain
(`visible_payload`), so a cut at a byte is a cut at a character, and
what a reader of the format has by then are the objects of the first
rows of the transcript, with every row whose event was complete
(`stream_in_order`): whatever is in the messages, no event is split,
lost or made up.
-/
import LegalBot.Json.Ascii
import LegalBot.Lib.EventStream
import LegalBot.Proofs.TranscriptOrder

namespace LegalBot

open Lts (Always Reachable)

/-- `str` of a UUID. -/
def uuidText (id : Uuid) : String :=
  let hex := (List.range 32).map fun i =>
    Json.hexDigit (id / 16 ^ (31 - i) % 16)
  String.ofList (['-'].intercalate [hex.take 8, (hex.drop 8).take 4,
    (hex.drop 12).take 4, (hex.drop 16).take 4, hex.drop 20])

example : uuidText 0x0123456789abcdef0123456789abcdef
    = "01234567-89ab-cdef-0123-456789abcdef" := by decide

namespace MessageStream

-- ================================================================ the text

/-- The object of a message. -/
def payload (r : SessionMessage) : Json :=
  .obj [("id", .str (uuidText r.id)), ("role", .str r.role),
    ("content", .str r.content), ("message_index", .int r.messageIndex)]

/-- The event of a message. -/
def frame (r : SessionMessage) : String :=
  "data: " ++ Json.dumpsAscii (payload r) ++ "\n\n"

/-- The text of the rows that were sent. -/
def text (rows : List SessionMessage) : String :=
  String.join (rows.map frame)

/-- One turn of the loop of `stream_messages`: what it yields, and its
`after`. -/
def turn (messages : List SessionMessage) (sid : Uuid) (after : Int) :
    String × Int :=
  (listMessages messages sid (some after) 100).foldl
    (fun out r => (out.1 ++ frame r, r.messageIndex)) ("", after)

section Text

variable {r : SessionMessage} {rows rows' messages : List SessionMessage}
  {sid : Uuid} {repr : String → String}

theorem isPython_payload (repr : String → String) (r : SessionMessage) :
    Json.IsPython repr (payload r) := by
  refine ⟨?_, ?_⟩
  · simp [payload, Json.UniqueKeys, Json.UniqueMembers]
  · simp [payload, Json.PrintedFloats, Json.PrintedMembers]

/-- The data of the event of a message. -/
def data (r : SessionMessage) : List Char :=
  (Json.dumpsAscii (payload r)).toList

theorem visible_payload : Json.Visible (data r) :=
  Json.visible_dumpsAscii (isPython_payload id r).2

theorem loads_data :
    Json.loads repr (String.ofList (data r)) = some (payload r) := by
  unfold data
  rw [String.ofList_toList]
  exact Json.loads_dumpsAscii (isPython_payload repr r)

/-- A text that can be seen is on one line. -/
theorem oneLine_data : EventStream.OneLine (data r) := by
  intro c hc
  have hvisible := (visible_payload c hc).1
  refine ⟨?_, ?_⟩
  all_goals
    rintro rfl
    exact absurd hvisible (by decide)

theorem oneLine_rows : ∀ d ∈ rows.map data, EventStream.OneLine d := by
  intro d hd
  obtain ⟨r, -, rfl⟩ := List.mem_map.mp hd
  exact oneLine_data

theorem toList_frame : (frame r).toList = EventStream.event (data r) := by
  unfold frame
  rw [String.toList_append, String.toList_append]
  rfl

theorem toList_text :
    (text rows).toList = (rows.map data).flatMap EventStream.event := by
  unfold text
  rw [String.toList_join, List.flatMap_map, List.flatMap_map]
  exact List.flatMap_congr fun r _ => toList_frame

/-- Every character of the text is one byte. -/
theorem text_plain : ∀ c ∈ (text rows).toList, c.toNat < 0x80 := by
  intro c hc
  rw [toList_text] at hc
  obtain ⟨d, hd, hc⟩ := List.mem_flatMap.mp hc
  obtain ⟨r, -, rfl⟩ := List.mem_map.mp hd
  have hname : Json.Visible (EventStream.dataName ++ [':', ' ']) := by
    decide
  have hend : ∀ c ∈ ['\n', '\n'], c = '\n' := by simp
  rcases List.mem_append.mp hc with hc | hc
  · exact (hname.append visible_payload c hc).2.trans (by decide)
  · rw [hend c hc]
    decide

theorem text_append : text (rows ++ rows') = text rows ++ text rows' := by
  refine String.toList_injective ?_
  rw [String.toList_append, toList_text, toList_text, toList_text,
    List.map_append, List.flatMap_append]

/-- What a reader has of the text of some rows that was cut off. -/
theorem read_text {cut : List Char} (hcut : cut <+: (text rows).toList) :
    ∃ sent, sent <+: rows
      ∧ (EventStream.read cut).map (fun d =>
          Json.loads repr (String.ofList d))
        = sent.map (fun r => some (payload r))
      ∧ ∀ complete, complete <+: rows →
        (text complete).toList <+: cut → complete <+: sent := by
  rw [toList_text] at hcut
  have hread := EventStream.read_cut oneLine_rows hcut
  obtain ⟨sent, hsent, hdata⟩ := List.prefix_map_iff.mp hread
  refine ⟨sent, hsent, ?_, fun complete hcomplete htext => ?_⟩
  · rw [hdata, List.map_map]
    exact List.map_congr_left fun r _ => loads_data
  · rw [toList_text] at htext
    have hprefix := EventStream.read_complete oneLine_rows htext
    have hle := hprefix.length_le
    rw [hdata, List.length_map, List.length_map] at hle
    exact List.prefix_of_prefix_length_le hcomplete hsent hle

end Text

-- ============================================================== the stream

section Stream

open Transcript

variable {n : Nat} {s s' : State n} {stream : Nat} {sid : Uuid}

/-- What a turn yields is the text of the rows it reads, and its `after`
is the index of the last row that was sent. -/
theorem turn_read : turn s.messages sid (afterIndex (s.seen stream sid))
    = (text (listMessages s.messages sid
        (some (afterIndex (s.seen stream sid))) 100),
      afterIndex ((Transcript.read s stream sid 100).seen stream sid)) := by
  have hfold : ∀ (rows sent : List SessionMessage) (out : String),
      rows.foldl (fun out r => (out.1 ++ frame r, r.messageIndex))
          (out, afterIndex sent)
        = (out ++ text rows, afterIndex (sent ++ rows)) := by
    intro rows
    induction rows with
    | nil =>
        intro sent out
        simp [text]
    | cons r rows ih =>
        intro sent out
        have hlast : r.messageIndex = afterIndex (sent ++ [r]) := by
          simp [afterIndex]
        rw [List.foldl_cons, hlast, ih, List.append_assoc]
        rw [show r :: rows = [r] ++ rows from rfl, text_append]
        simp [text, String.append_assoc]
  unfold turn
  rw [hfold]
  simp [Transcript.read]

/-- The text of a stream grows by what each turn yields. -/
theorem text_read :
    text ((Transcript.read s stream sid 100).seen stream sid)
    = text (s.seen stream sid)
      ++ (turn s.messages sid (afterIndex (s.seen stream sid))).1 := by
  rw [turn_read, ← text_append]
  simp [Transcript.read]

/-- Whatever part of the text of a stream has arrived, it is plain, and
what is read of it are the objects of the first rows of the transcript,
with those of all the rows whose events are complete. -/
theorem stream_in_order {repr : String → String} {cut : List Char}
    (hs : Reachable step Always (init n) s)
    (hs' : Reachable step Always s s')
    (hcut : cut <+: (text (s.seen stream sid)).toList) :
    (∀ c ∈ cut, c.toNat < 0x80)
      ∧ ∃ sent, sent <+: transcript s'.messages sid
        ∧ (EventStream.read cut).map (fun d =>
            Json.loads repr (String.ofList d))
          = sent.map (fun r => some (payload r))
        ∧ ∀ complete, complete <+: s.seen stream sid →
          (text complete).toList <+: cut → complete <+: sent := by
  have hinv := reachable_inv hs
  have hinv' := reachable_inv (hs.trans hs')
  have hseen : s.seen stream sid <+: transcript s'.messages sid := by
    rw [transcript_eq (hinv'.numbered sid)]
    exact (hinv.streams stream sid).trans ((committed_grow hs').filter _)
  refine ⟨fun c hc => text_plain c (hcut.subset hc), ?_⟩
  obtain ⟨sent, hsent, hread, hcomplete⟩ := read_text hcut
  exact ⟨sent, hsent.trans hseen, hread, hcomplete⟩

end Stream

/-- The connection breaks before the last character: the client has the
first of the two messages. -/
theorem contended_stream : ∃ s s' : Transcript.State 2,
    Lts.run Transcript.step (Transcript.init 2) Transcript.contended
      = some s
    ∧ Lts.run Transcript.step s Transcript.abandoned = some s'
    ∧ (EventStream.read (text (s.seen 0 2)).toList.dropLast).length = 1
    ∧ (∀ c ∈ (text (s.seen 0 2)).toList.dropLast, c.toNat < 0x80)
    ∧ ∃ sent, sent <+: transcript s'.messages 2
      ∧ (EventStream.read (text (s.seen 0 2)).toList.dropLast).map (fun d =>
          Json.loads id (String.ofList d))
        = sent.map (fun r => some (payload r))
      ∧ ∀ complete, complete <+: s.seen 0 2 →
        (text complete).toList <+: (text (s.seen 0 2)).toList.dropLast →
        complete <+: sent := by
  have hall : ((Lts.run Transcript.step (Transcript.init 2)
      Transcript.contended).bind fun s =>
        (Lts.run Transcript.step s Transcript.abandoned).map fun _ =>
          (EventStream.read (text (s.seen 0 2)).toList.dropLast).length)
      = some 1 := by
    decide +kernel
  obtain ⟨s, hs, hrest⟩ := Option.bind_eq_some_iff.mp hall
  obtain ⟨s', hs', hlength⟩ := Option.map_eq_some_iff.mp hrest
  refine ⟨s, s', hs, hs', hlength, ?_⟩
  exact stream_in_order (Lts.reachable_of_run .init hs)
    (Lts.reachable_of_run .init hs') (List.dropLast_prefix _)

end MessageStream

end LegalBot
