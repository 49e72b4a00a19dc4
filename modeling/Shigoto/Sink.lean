import Mathlib.Data.List.DropRight
import Mathlib.Logic.Function.Iterate
import Shigoto.Text.LineFormat
import Shigoto.Text.Utf8

/-!
# Event sinks

What the sinks do with the events that they record: keep them in memory, append them to a file one a line, or
hand them on to other sinks. How `serde_json` spells an event on its line is a parameter. Sinks are shared, so
a sink stands for the buffers and files that it reaches, and these are in a `SinkState`.

A write to a file may fail after some of its bytes, and a record whose line was not written to the end
leaves the next one in the middle of a line.

* `sinks_fan_out` — a sink gives every event to each buffer and file once for each way it reaches it.
* `readLines_recordAll` — a file that no write fails on is read back as the events that have a line.
* `lost_le` — each write that fails costs two events at most.
-/

namespace Shigoto

open Text

variable {α : Type}

/-! ## A file to which lines are appended -/

/-- A file that is open for appending, and how many writes there were. -/
structure AuditFile where
  content : List UInt8
  writes : Nat

/-- `write_all`, and whether it came to the end. Where `torn` says so, the write fails once that many bytes
are in the file. -/
def AuditFile.writeAll (torn : Nat → Option Nat) (bytes : List UInt8) (file : AuditFile) : Bool × AuditFile :=
  match torn file.writes with
  | none => (true, ⟨file.content ++ bytes, file.writes + 1⟩)
  | some n =>
    if n < bytes.length then (false, ⟨file.content ++ bytes.take n, file.writes + 1⟩)
    else (true, ⟨file.content ++ bytes, file.writes + 1⟩)

/-- `writeln!`: the line and then the line break, unless the line failed. -/
def AuditFile.writeln (torn : Nat → Option Nat) (line : List UInt8) (file : AuditFile) : AuditFile :=
  match file.writeAll torn line with
  | (true, file) => (file.writeAll torn [newline]).2
  | (false, file) => file

/-- `AuditFileSink::record`. An event without a line is dropped, and so is the error of a write. -/
def AuditFile.record (format : LineFormat α) (torn : Nat → Option Nat) (file : AuditFile) (event : α) :
    AuditFile :=
  match format.line event with
  | some line => file.writeln torn line
  | none => file

/-! ## Sinks that reach others -/

inductive Sink
  | null
  | inMemory (buffer : Nat)
  | auditFile (file : Nat)
  | multi (children : List Sink)

structure SinkState (α : Type) where
  buffers : Nat → List α
  files : Nat → AuditFile

def SinkState.push (s : SinkState α) (buffer : Nat) (event : α) : SinkState α :=
  { s with buffers := fun i => if i = buffer then s.buffers i ++ [event] else s.buffers i }

def SinkState.append (format : LineFormat α) (torn : Nat → Nat → Option Nat) (s : SinkState α) (file : Nat)
    (event : α) : SinkState α :=
  { s with files := fun i => if i = file then (s.files i).record format (torn i) event else s.files i }

mutual

def Sink.record (format : LineFormat α) (torn : Nat → Nat → Option Nat) (event : α) :
    Sink → SinkState α → SinkState α
  | .null, s => s
  | .inMemory buffer, s => s.push buffer event
  | .auditFile file, s => s.append format torn file event
  | .multi children, s => Sink.recordChildren format torn event children s

/-- Each child records the event, in their order. -/
def Sink.recordChildren (format : LineFormat α) (torn : Nat → Nat → Option Nat) (event : α) :
    List Sink → SinkState α → SinkState α
  | [], s => s
  | child :: children, s =>
    Sink.recordChildren format torn event children (child.record format torn event s)

end

mutual

/-- In how many ways a sink reaches a buffer. -/
def Sink.buffer (i : Nat) : Sink → Nat
  | .inMemory buffer => if i = buffer then 1 else 0
  | .multi children => Sink.bufferOf i children
  | .null | .auditFile _ => 0

def Sink.bufferOf (i : Nat) : List Sink → Nat
  | [] => 0
  | child :: children => child.buffer i + Sink.bufferOf i children

end

mutual

/-- In how many ways a sink reaches a file. -/
def Sink.file (i : Nat) : Sink → Nat
  | .auditFile file => if i = file then 1 else 0
  | .multi children => Sink.fileOf i children
  | .null | .inMemory _ => 0

def Sink.fileOf (i : Nat) : List Sink → Nat
  | [] => 0
  | child :: children => child.file i + Sink.fileOf i children

end

/-! ## Every leaf gets every event -/

variable {format : LineFormat α} {torn : Nat → Nat → Option Nat} {event : α}

mutual

theorem Sink.record_buffers (i : Nat) : ∀ (sink : Sink) (s : SinkState α),
    (sink.record format torn event s).buffers i = s.buffers i ++ List.replicate (sink.buffer i) event
  | .null, s => by simp [record, buffer]
  | .inMemory b, s => by
    by_cases h : i = b <;> simp [record, SinkState.push, buffer, h]
  | .auditFile file, s => by simp [record, SinkState.append, buffer]
  | .multi children, s => by
    rw [record, buffer]
    exact Sink.recordChildren_buffers i children s

theorem Sink.recordChildren_buffers (i : Nat) : ∀ (children : List Sink) (s : SinkState α),
    (Sink.recordChildren format torn event children s).buffers i =
      s.buffers i ++ List.replicate (Sink.bufferOf i children) event
  | [], s => by simp [recordChildren, bufferOf]
  | child :: children, s => by
    rw [recordChildren, bufferOf, Sink.recordChildren_buffers i children, Sink.record_buffers i child,
      List.append_assoc, List.replicate_add]

end

mutual

theorem Sink.record_files (i : Nat) : ∀ (sink : Sink) (s : SinkState α),
    (sink.record format torn event s).files i =
      (AuditFile.record format (torn i) · event)^[sink.file i] (s.files i)
  | .null, s => by simp [record, file]
  | .inMemory b, s => by simp [record, SinkState.push, file]
  | .auditFile f, s => by
    by_cases h : i = f <;> simp [record, SinkState.append, file, h]
  | .multi children, s => by
    rw [record, file]
    exact Sink.recordChildren_files i children s

theorem Sink.recordChildren_files (i : Nat) : ∀ (children : List Sink) (s : SinkState α),
    (Sink.recordChildren format torn event children s).files i =
      (AuditFile.record format (torn i) · event)^[Sink.fileOf i children] (s.files i)
  | [], s => by simp [recordChildren, fileOf]
  | child :: children, s => by
    rw [recordChildren, fileOf, Sink.recordChildren_files i children, Sink.record_files i child, Nat.add_comm,
      Function.iterate_add_apply]

end

/-- Record one event after the other. -/
def Sink.recordAll (format : LineFormat α) (torn : Nat → Nat → Option Nat) (sink : Sink) (events : List α)
    (s : SinkState α) : SinkState α := events.foldl (fun s event => sink.record format torn event s) s

def AuditFile.recordAll (format : LineFormat α) (torn : Nat → Option Nat) (events : List α) (file : AuditFile) :
    AuditFile := events.foldl (AuditFile.record format torn) file

/-- **Sinks fan out.** However sinks are nested and shared, after any events each buffer and each file got
every event in order, once for each way in which the sink reaches it. -/
theorem sinks_fan_out (format : LineFormat α) (torn : Nat → Nat → Option Nat) (sink : Sink) (events : List α)
    (s : SinkState α) (i : Nat) :
    (sink.recordAll format torn events s).buffers i =
      s.buffers i ++ events.flatMap (List.replicate (sink.buffer i)) ∧
    (sink.recordAll format torn events s).files i =
      (s.files i).recordAll format (torn i) (events.flatMap (List.replicate (sink.file i))) := by
  have hiterate : ∀ n event (file : AuditFile), (AuditFile.record format (torn i) · event)^[n] file =
      (List.replicate n event).foldl (AuditFile.record format (torn i)) file := by
    intro n event
    induction n with
    | zero => exact fun _ => rfl
    | succ n ih => exact fun file => ih _
  induction events generalizing s with
  | nil => exact ⟨(List.append_nil _).symm, rfl⟩
  | cons event events ih =>
    obtain ⟨hbuffers, hfiles⟩ := ih (sink.record format torn event s)
    refine ⟨hbuffers.trans ?_, hfiles.trans ?_⟩
    · rw [Sink.record_buffers, List.flatMap_cons, List.append_assoc]
    · rw [Sink.record_files, hiterate, List.flatMap_cons, AuditFile.recordAll, AuditFile.recordAll,
        List.foldl_append]

/-! ## What a file keeps -/

variable {torn : Nat → Option Nat} {file : AuditFile}

/-- The file ends in an unfinished line, after lines that have ended. -/
structure AuditFile.Ends (file : AuditFile) (ended rest : List UInt8) : Prop where
  content : file.content = ended ++ rest
  ended : AtLineStart ended
  rest : newline ∉ rest

/-- How a `write_all` can end. -/
theorem writeAll_cases (torn : Nat → Option Nat) (bytes : List UInt8) (file : AuditFile) :
    file.writeAll torn bytes = (true, ⟨file.content ++ bytes, file.writes + 1⟩) ∨
    ∃ n, (torn file.writes).isSome = true ∧ n < bytes.length ∧
      file.writeAll torn bytes = (false, ⟨file.content ++ bytes.take n, file.writes + 1⟩) := by
  unfold AuditFile.writeAll
  cases htorn : torn file.writes with
  | none => exact .inl rfl
  | some n =>
    by_cases hn : n < bytes.length
    · exact .inr ⟨n, rfl, hn, if_pos hn⟩
    · exact .inl (if_neg hn)

/-- The writes of a file that were torn, from one number of writes to another. -/
def tornBetween (torn : Nat → Option Nat) (first last : Nat) : Nat :=
  (List.range' first (last - first)).countP fun n => (torn n).isSome

theorem tornBetween_add {torn : Nat → Option Nat} {m n k : Nat} (h : m ≤ n) (h' : n ≤ k) :
    tornBetween torn m k = tornBetween torn m n + tornBetween torn n k := by
  obtain ⟨a, rfl⟩ := Nat.exists_eq_add_of_le h
  obtain ⟨b, rfl⟩ := Nat.exists_eq_add_of_le h'
  have hsplit : List.range' m a ++ List.range' (m + 1 * a) b = List.range' m (a + b) := List.range'_append
  rw [Nat.one_mul] at hsplit
  rw [tornBetween, tornBetween, tornBetween, Nat.add_sub_cancel_left, Nat.add_sub_cancel_left,
    show m + a + b - m = a + b by omega, ← hsplit, List.countP_append]

theorem tornBetween_one {torn : Nat → Option Nat} {n : Nat} (h : (torn n).isSome = true) :
    tornBetween torn n (n + 1) = 1 := by
  rw [tornBetween, Nat.add_sub_cancel_left]
  simp [h]

/-- What one record does to a file: nothing, a line, or part of one. -/
theorem record_cases (hformat : format.Lawful) (torn : Nat → Option Nat) {ended rest : List UInt8}
    (h : file.Ends ended rest) (event : α) :
    file.writes ≤ (file.record format torn event).writes ∧
    (format.line event = none ∧ file.record format torn event = file ∨
    ∃ line, format.line event = some line ∧
      ((file.record format torn event).Ends (ended ++ (rest ++ line) ++ [newline]) [] ∨
      ∃ part, (file.record format torn event).Ends ended (rest ++ part) ∧
        1 ≤ tornBetween torn file.writes (file.record format torn event).writes)) := by
  unfold AuditFile.record
  cases hline : format.line event with
  | none => exact ⟨Nat.le_refl _, .inl ⟨rfl, rfl⟩⟩
  | some line =>
    have hnot : newline ∉ rest ++ line :=
      fun hmem => (List.mem_append.mp hmem).elim h.rest (hformat.newline_notMem hline)
    have hcontent : file.content ++ line = ended ++ (rest ++ line) := by rw [h.content, List.append_assoc]
    suffices hln : file.writes ≤ (file.writeln torn line).writes ∧
        ((file.writeln torn line).Ends (ended ++ (rest ++ line) ++ [newline]) [] ∨
        ∃ part, (file.writeln torn line).Ends ended (rest ++ part) ∧
          1 ≤ tornBetween torn file.writes (file.writeln torn line).writes) from
      ⟨hln.1, .inr ⟨line, rfl, hln.2⟩⟩
    rcases writeAll_cases torn line file with hwhole | ⟨n, htorn, -, hpart⟩
    · rcases writeAll_cases torn [newline] ⟨file.content ++ line, file.writes + 1⟩ with
        hbreak | ⟨n, htorn, hn, hpart⟩
      · simp only [AuditFile.writeln, hwhole, hbreak]
        refine ⟨Nat.le_add_right _ 2, .inl ⟨?_, .append_line _ _, nofun⟩⟩
        rw [hcontent, List.append_nil]
      · -- the line is there, but it has not ended
        obtain rfl : n = 0 := Nat.lt_one_iff.mp hn
        simp only [AuditFile.writeln, hwhole, hpart]
        refine ⟨Nat.le_add_right _ 2, .inr ⟨line, ⟨?_, h.ended, hnot⟩, ?_⟩⟩
        · rw [List.take_zero, List.append_nil, hcontent]
        · rw [tornBetween_add (Nat.le_succ _) (Nat.le_succ _), tornBetween_one htorn]
          exact Nat.le_add_left 1 _
    · simp only [AuditFile.writeln, hpart]
      refine ⟨Nat.le_succ _, .inr ⟨line.take n, ⟨?_, h.ended, fun hmem => hnot ?_⟩, ?_⟩⟩
      · rw [h.content, List.append_assoc]
      · exact (List.Sublist.append_left (List.take_sublist n line) rest).mem hmem
      · rw [tornBetween_one htorn]

/-- **Each write that fails costs two events at most.** Of the events that have a line, all but two for each
torn write are read back, in their order, behind what the file held before. -/
theorem lost_le (hformat : format.Lawful) (torn : Nat → Option Nat) (events : List α)
    {ended rest : List UInt8} (h : file.Ends ended rest) :
    ∃ (kept read : List α) (ended' rest' : List UInt8), (file.recordAll format torn events).Ends ended' rest' ∧
      file.writes ≤ (file.recordAll format torn events).writes ∧
      format.readLines ended' = format.readLines ended ++ read ∧ kept.Sublist events ∧ kept.Sublist read ∧
      events.countP (fun event => (format.line event).isSome) ≤ kept.length +
        2 * tornBetween torn file.writes (file.recordAll format torn events).writes +
        (if rest = [] then 0 else 1) := by
  induction events generalizing file ended rest with
  | nil => exact ⟨[], [], ended, rest, h, Nat.le_refl _, (List.append_nil _).symm, .slnil, .slnil, Nat.zero_le _⟩
  | cons event events ih =>
    obtain ⟨hle, hcases⟩ := record_cases hformat torn h event
    have hrun : file.recordAll format torn (event :: events) =
        (file.record format torn event).recordAll format torn events := rfl
    rw [hrun]
    rcases hcases with ⟨hnone, hsame⟩ | ⟨line, hline, hends | ⟨part, hends, hone⟩⟩
    · -- dropped: it has no line
      rw [hsame, List.countP_cons_of_neg (by simp [hnone])]
      obtain ⟨kept, read, ended', rest', hends', hle', hread, hevents, hkept, hcount⟩ := ih h
      exact ⟨kept, read, ended', rest', hends', hle', hread, hevents.cons event, hkept, hcount⟩
    · obtain ⟨kept, read, ended', rest', hends', hle', hread, hevents, hkept, hcount⟩ := ih hends
      rw [List.countP_cons_of_pos (by simp [hline]), tornBetween_add hle hle']
      rw [if_pos rfl] at hcount
      by_cases hrest : rest = []
      · -- a line of its own
        have hline' : format.readLines (ended ++ (rest ++ line) ++ [newline]) =
            format.readLines ended ++ [event] := by
          rw [hrest, List.nil_append, hformat.readLines_append h.ended hline]
          rfl
        refine ⟨event :: kept, event :: read, ended', rest', hends', hle.trans hle', ?_, hevents.cons_cons event,
          hkept.cons_cons event, ?_⟩
        · rw [hread, hline', List.append_assoc, List.singleton_append]
        · rw [if_pos hrest, List.length_cons]
          omega
      · -- lost behind the part of a line that a torn write left
        have hline' : format.readLines (ended ++ (rest ++ line) ++ [newline]) =
            format.readLines ended ++ (format.readLine (rest ++ line)).toList := by
          have hnot : newline ∉ rest ++ line :=
            fun hmem => (List.mem_append.mp hmem).elim h.rest (hformat.newline_notMem hline)
          rw [LineFormat.readLines, List.append_assoc, byteLines_append h.ended, byteLines_line hnot,
            List.filterMap_append, byteLines_nil, List.filterMap_cons, List.filterMap_nil]
          cases format.readLine (rest ++ line) <;> rfl
        refine ⟨kept, (format.readLine (rest ++ line)).toList ++ read, ended', rest', hends', hle.trans hle', ?_,
          hevents.cons event, hkept.trans (List.sublist_append_right _ _), ?_⟩
        · rw [hread, hline', List.append_assoc]
        · rw [if_neg hrest]
          omega
    · obtain ⟨kept, read, ended', rest', hends', hle', hread, hevents, hkept, hcount⟩ := ih hends
      rw [List.countP_cons_of_pos (by simp [hline]), tornBetween_add hle hle']
      refine ⟨kept, read, ended', rest', hends', hle.trans hle', hread, hevents.cons event, hkept, ?_⟩
      split at hcount <;> omega

/-- The lines of a file that have ended. -/
def AuditFile.ended (file : AuditFile) : List UInt8 := file.content.rdropWhile (· ≠ newline)

theorem AuditFile.ends (file : AuditFile) :
    file.Ends file.ended (file.content.rtakeWhile (· ≠ newline)) := by
  refine ⟨(List.rdropWhile_append_rtakeWhile ..).symm, ?_, fun hmem => ?_⟩
  · by_cases hnil : file.ended = []
    · exact .inl hnil
    · have hlast : file.ended.getLast hnil = newline := by
        simpa [AuditFile.ended] using
          List.rdropWhile_last_not (fun b => b ≠ newline) file.content hnil
      exact .inr ((List.getLast?_eq_some_getLast hnil).trans (congrArg some hlast))
  · simpa using List.mem_rtakeWhile_imp hmem

/-- A file that no write fails on is read back as the events that have a line. -/
theorem readLines_recordAll (hformat : format.Lawful) {torn : Nat → Option Nat} (htorn : ∀ n, torn n = none)
    (events : List α) (h : AtLineStart file.content) :
    AtLineStart (file.recordAll format torn events).content ∧
    format.readLines (file.recordAll format torn events).content =
      format.readLines file.content ++ events.filter fun event => (format.line event).isSome := by
  induction events generalizing file with
  | nil => exact ⟨h, (List.append_nil _).symm⟩
  | cons event events ih =>
    have hrun : file.recordAll format torn (event :: events) =
        (file.record format torn event).recordAll format torn events := rfl
    rw [hrun]
    cases hline : format.line event with
    | none =>
      have hsame : file.record format torn event = file := by simp [AuditFile.record, hline]
      rw [hsame, List.filter_cons_of_neg (by simp [hline])]
      exact ih h
    | some line =>
      have hcontent : (file.record format torn event).content = file.content ++ line ++ [newline] := by
        simp [AuditFile.record, hline, AuditFile.writeln, AuditFile.writeAll, htorn]
      have hline' : AtLineStart (file.record format torn event).content := hcontent ▸ .append_line _ _
      obtain ⟨hstart, hread⟩ := ih hline'
      refine ⟨hstart, ?_⟩
      rw [hread, hcontent, hformat.readLines_append h hline, List.filter_cons_of_pos (by simp [hline]),
        List.append_assoc]
      rfl

/-- **Each write that fails costs two events at most.** Whatever a file held, and whichever writes to it fail
in the middle: of the events that have a line, all but two for each torn write, and but one where an
unfinished line stood at the end, are read back in their order behind the lines that had ended. -/
theorem torn_writes_lose_two {format : LineFormat α} (hformat : format.Lawful) (torn : Nat → Option Nat)
    (events : List α) (file : AuditFile) :
    let file' := file.recordAll format torn events
    ∃ kept read : List α, format.readLines file'.content = format.readLines file.ended ++ read ∧
      kept.Sublist events ∧ kept.Sublist read ∧
      events.countP (fun event => (format.line event).isSome) ≤ kept.length +
        2 * tornBetween torn file.writes file'.writes + (if file.ended = file.content then 0 else 1) := by
  intro file'
  obtain ⟨kept, read, ended, rest, hends, -, hread, hevents, hkept, hcount⟩ :=
    lost_le hformat torn events file.ends
  refine ⟨kept, read ++ (byteLines rest).filterMap format.readLine, ?_, hevents,
    hkept.trans (List.sublist_append_left _ _), ?_⟩
  · rw [hends.content, LineFormat.readLines, byteLines_append hends.ended, List.filterMap_append,
      ← List.append_assoc, ← hread]
    rfl
  · refine hcount.trans (Nat.add_le_add_left ?_ _)
    by_cases hfull : file.ended = file.content
    · have hnil : file.content.rtakeWhile (· ≠ newline) = [] := by
        have hcontent := file.ends.content
        rw [hfull] at hcontent
        exact List.self_eq_append_right.mp hcontent
      rw [if_pos hfull, if_pos hnil]
    · rw [if_neg hfull]
      split <;> omega

/-! ## A sample file -/

namespace Sample

/-- Truth values as JSON. -/
def boolLines : LineFormat Bool := .table [(true, textBytes "true"), (false, textBytes "false")]

theorem boolLines_lawful : boolLines.Lawful := LineFormat.lawful_table (by decide +kernel) (by decide +kernel)

/-- The third write to the file stops after two bytes. -/
def tornOnce (n : Nat) : Option Nat := if n = 2 then some 2 else none

/-- Four events, of which the second one is torn and the third one is on the rest of its line. -/
def tornFile : AuditFile := AuditFile.recordAll boolLines tornOnce [true, false, true, true] ⟨[], 0⟩

example : tornFile.content = textBytes "true\nfatrue\ntrue\n" := by decide +kernel

end Sample

/-- Of four events, two at least are read back. -/
theorem torn_writes_lose_two_once :
    ∃ kept : List Bool, kept.Sublist [true, false, true, true] ∧
      kept.Sublist (Sample.boolLines.readLines Sample.tornFile.content) ∧ 2 ≤ kept.length := by
  obtain ⟨kept, read, hread, hevents, hkept, hcount⟩ :=
    torn_writes_lose_two Sample.boolLines_lawful Sample.tornOnce [true, false, true, true] ⟨[], 0⟩
  have hbefore : Sample.boolLines.readLines (AuditFile.ended ⟨[], 0⟩) = [] := by decide +kernel
  have htorn : tornBetween Sample.tornOnce 0 Sample.tornFile.writes = 1 := by decide +kernel
  have hevery : [true, false, true, true].countP (fun event => (Sample.boolLines.line event).isSome) = 4 := by
    decide +kernel
  rw [hbefore, List.nil_append] at hread
  refine ⟨kept, hevents, hread ▸ hkept, ?_⟩
  rw [hevery, if_pos (by decide)] at hcount
  have hone : 4 ≤ kept.length + 2 * 1 + 0 := htorn ▸ hcount
  omega

end Shigoto
