/-
The format of an event stream, with data fields alone.

# Reading

`Reader` is what a receiver knows between two characters. A line ends
with a line feed, a carriage return or both. A line with a `data` field
adds to the event, an empty line dispatches it, and any other line is
skipped; an event that is not dispatched when the stream ends is lost.

# Cuts

What has been dispatched stays (`read_prefix`), so a reader that was cut
off has the first of the events (`read_cut`), with all those that were
complete (`read_complete`).
-/
import Mathlib.Data.List.Basic

namespace EventStream

-- ============================================================== the reader

/-- The line so far, whether a carriage return came last, the data fields
of the event so far, and the events that were dispatched. -/
structure Reader where
  line : List Char
  afterReturn : Bool
  data : List (List Char)
  events : List (List Char)

/-- A reader between two events. -/
def Reader.between (events : List (List Char)) : Reader :=
  { line := [], afterReturn := false, data := [], events := events }

/-- `data`. -/
def dataName : List Char := ['d', 'a', 't', 'a']

/-- What stands before the colon of a line. -/
def fieldName (line : List Char) : List Char :=
  line.takeWhile fun c => c ≠ ':'

/-- What stands behind it, without a leading space. -/
def fieldValue (line : List Char) : List Char :=
  match line.dropWhile fun c => c ≠ ':' with
  | _ :: ' ' :: value => value
  | _ :: value => value
  | [] => []

/-- The event, if it has data. -/
def Reader.dispatch (r : Reader) : List (List Char) :=
  if r.data = [] then r.events
  else r.events ++ [['\n'].intercalate r.data]

/-- The end of a line. A comment is a field without a name. -/
def Reader.endLine (r : Reader) : Reader :=
  if r.line = [] then { r with data := [], events := r.dispatch }
  else if fieldName r.line = dataName then
    { r with line := [], data := r.data ++ [fieldValue r.line] }
  else { r with line := [] }

def Reader.feed (r : Reader) (c : Char) : Reader :=
  if c = '\n' then
    if r.afterReturn then { r with afterReturn := false } else r.endLine
  else if c = '\r' then { r.endLine with afterReturn := true }
  else { r with line := r.line ++ [c], afterReturn := false }

/-- The events of a stream. -/
def read (cs : List Char) : List (List Char) :=
  (cs.foldl Reader.feed (.between [])).events

/-- An event of one line. -/
def event (d : List Char) : List Char :=
  dataName ++ [':', ' '] ++ d ++ ['\n', '\n']

/-- Without the end of a line. -/
def OneLine (d : List Char) : Prop := ∀ c ∈ d, c ≠ '\n' ∧ c ≠ '\r'

example : read "data: a\n\n: b\ndata:c\r\ndata: d\r\revent: e\n\nda".toList
    = ["a".toList, "c\nd".toList] := by decide

-- ==================================================================== cuts

section Cuts

variable {r : Reader} {c : Char} {cs cs' d cut : List Char}
  {ds events : List (List Char)}

theorem endLine_events : r.events <+: r.endLine.events := by
  unfold Reader.endLine
  split
  · show r.events <+: r.dispatch
    unfold Reader.dispatch
    split
    · exact List.prefix_rfl
    · exact List.prefix_append _ _
  · split
    · exact List.prefix_rfl
    · exact List.prefix_rfl

/-- A character takes no event back. -/
theorem feed_events : r.events <+: (r.feed c).events := by
  unfold Reader.feed
  split
  · split
    · exact List.prefix_rfl
    · exact endLine_events
  · split
    · exact endLine_events
    · exact List.prefix_rfl

theorem foldl_events : r.events <+: (cs.foldl Reader.feed r).events := by
  induction cs generalizing r with
  | nil => exact List.prefix_rfl
  | cons c cs ih => exact feed_events.trans ih

/-- What has been dispatched stays. -/
theorem read_prefix (h : cs <+: cs') : read cs <+: read cs' := by
  obtain ⟨t, rfl⟩ := h
  unfold read
  rw [List.foldl_append]
  exact foldl_events

/-- A line is kept until it ends. -/
theorem foldl_line (h : OneLine d) (hr : r.afterReturn = false) :
    d.foldl Reader.feed r = { r with line := r.line ++ d } := by
  induction d generalizing r with
  | nil =>
      rw [List.append_nil]
      rfl
  | cons c d ih =>
      obtain ⟨hfeed, hreturn⟩ := h c List.mem_cons_self
      have hc : r.feed c
          = { r with line := r.line ++ [c], afterReturn := false } := by
        unfold Reader.feed
        rw [if_neg hfeed, if_neg hreturn]
      rw [List.foldl_cons, hc,
        ih (fun e he => h e (List.mem_cons_of_mem _ he)) rfl, hr]
      simp

theorem feed_end (hr : r.afterReturn = false) :
    r.feed '\n' = r.endLine := by
  unfold Reader.feed
  rw [if_pos rfl, hr]
  rfl

/-- The end of a `data` field. -/
theorem endLine_data (hline : r.line = dataName ++ [':', ' '] ++ d) :
    r.endLine = { r with line := [], data := r.data ++ [d] } := by
  have hname : fieldName (dataName ++ [':', ' '] ++ d) = dataName := by
    simp [fieldName, dataName]
  have hvalue : fieldValue (dataName ++ [':', ' '] ++ d) = d := by
    simp [fieldValue, dataName]
  have hline' : dataName ++ [':', ' '] ++ d ≠ [] := by simp [dataName]
  unfold Reader.endLine
  rw [hline, if_neg hline', if_pos hname, hvalue]

theorem foldl_event (h : OneLine d) :
    (event d).foldl Reader.feed (.between events)
      = .between (events ++ [d]) := by
  have hname : OneLine (dataName ++ [':', ' ']) := by
    simp [OneLine, dataName]
  have hline : OneLine (dataName ++ [':', ' '] ++ d) := fun c hc =>
    (List.mem_append.mp hc).elim (hname c) (h c)
  unfold event
  rw [List.foldl_append, foldl_line hline rfl]
  -- the field ends, and then the event
  rw [List.foldl_cons, feed_end rfl, endLine_data rfl, List.foldl_cons,
    feed_end rfl]
  show Reader.between (events ++ [['\n'].intercalate [d]]) = _
  rw [List.intercalate_singleton]

/-- The events of a stream are read back. -/
theorem foldl_stream (h : ∀ d ∈ ds, OneLine d) :
    (ds.flatMap event).foldl Reader.feed (.between events)
      = .between (events ++ ds) := by
  induction ds generalizing events with
  | nil =>
      rw [List.append_nil]
      rfl
  | cons d ds ih =>
      rw [List.flatMap_cons, List.foldl_append,
        foldl_event (h d List.mem_cons_self),
        ih fun e he => h e (List.mem_cons_of_mem _ he), List.append_assoc]
      rfl

theorem read_stream (h : ∀ d ∈ ds, OneLine d) :
    read (ds.flatMap event) = ds :=
  congrArg Reader.events (foldl_stream h)

/-- A reader that was cut off has the first of the events. -/
theorem read_cut (h : ∀ d ∈ ds, OneLine d)
    (hcut : cut <+: ds.flatMap event) : read cut <+: ds := by
  have hread := read_prefix hcut
  rwa [read_stream h] at hread

/-- It has all the events that were complete. -/
theorem read_complete (h : ∀ d ∈ ds, OneLine d)
    (hcut : ds.flatMap event <+: cut) : ds <+: read cut := by
  have hread := read_prefix hcut
  rwa [read_stream h] at hread

end Cuts

end EventStream
