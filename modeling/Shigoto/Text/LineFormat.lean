import Mathlib.Data.List.Basic
import Mathlib.Data.List.Nodup

/-!
# One value a line

A file to which values are appended, each on a line of its own. How a value is spelled on a line is a
parameter (`LineFormat`). Where a line has no line break in it and is read as the value that it spells
(`LineFormat.Lawful`), lines that start where a line ended are read back one for one (`readLines_append`).
-/

namespace Text

/-! ## Lines of bytes -/

def newline : UInt8 := 0x0A

/-- The lines of a file. The last one may lack its line break. -/
def byteLines (bytes : List UInt8) : List (List UInt8) :=
  let parts := bytes.splitOn newline
  if parts.getLast? = some [] then parts.dropLast else parts

/-- What is appended now starts a line. -/
def AtLineStart (bytes : List UInt8) : Prop := bytes = [] ∨ bytes.getLast? = some newline

variable {s t l : List UInt8}

@[simp] theorem byteLines_nil : byteLines [] = [] := by decide

theorem AtLineStart.append_line (s l : List UInt8) : AtLineStart (s ++ l ++ [newline]) :=
  .inr List.getLast?_concat

theorem byteLines_line (h : newline ∉ l) (t : List UInt8) :
    byteLines (l ++ newline :: t) = l :: byteLines t := by
  have hne := List.splitOn_ne_nil newline t
  unfold byteLines
  simp only [List.splitOn_append_cons_self_of_not_mem h, List.getLast?_cons_of_ne_nil hne]
  split
  · rw [List.dropLast_cons_of_ne_nil hne]
  · rfl

/-- Lines that have ended are not touched by what follows. -/
theorem byteLines_append (h : AtLineStart s) (t : List UInt8) :
    byteLines (s ++ t) = byteLines s ++ byteLines t := by
  rcases h with rfl | hlast
  · rfl
  · obtain ⟨front, rfl⟩ := List.getLast?_eq_some_iff.mp hlast
    have hne := List.splitOn_ne_nil newline t
    have hfront : byteLines (front ++ [newline]) = front.splitOn newline := by
      simp [byteLines, List.splitOn_append_cons_self]
    rw [hfront, List.append_assoc, List.singleton_append]
    unfold byteLines
    simp only [List.splitOn_append_cons_self, List.getLast?_append_of_ne_nil _ hne]
    split
    · rw [List.dropLast_append_of_ne_nil hne]
    · rfl

/-! ## Values on lines -/

variable {α : Type}

/-- How values are written on lines and read from them. Some values may have no line. -/
structure LineFormat (α : Type) where
  /-- The line of a value, without its line break. -/
  line : α → Option (List UInt8)
  readLine : List UInt8 → Option α

/-- A line has no line break in it, and spells its value. -/
structure LineFormat.Lawful (format : LineFormat α) : Prop where
  newline_notMem : ∀ {a l}, format.line a = some l → newline ∉ l
  readLine_line : ∀ {a l}, format.line a = some l → format.readLine l = some a

/-- The values of a file. Lines that spell none are passed over. -/
def LineFormat.readLines (format : LineFormat α) (bytes : List UInt8) : List α :=
  (byteLines bytes).filterMap format.readLine

/-- **A line that is appended at the start of a line is read back**, and nothing before it is disturbed. -/
theorem LineFormat.Lawful.readLines_append {format : LineFormat α} {a : α} (hformat : format.Lawful)
    (hs : AtLineStart s) (h : format.line a = some l) (t : List UInt8) :
    format.readLines (s ++ l ++ newline :: t) = format.readLines s ++ a :: format.readLines t := by
  rw [readLines, List.append_assoc, byteLines_append hs, byteLines_line (hformat.newline_notMem h),
    List.filterMap_append, List.filterMap_cons_some (hformat.readLine_line h)]
  rfl

/-! ## Tables -/

theorem mem_of_map_find? {β : Type} [DecidableEq α] {rows : List (α × β)} {a : α} {b : β}
    (h : (rows.find? fun row => row.1 = a).map (·.2) = some b) : (a, b) ∈ rows := by
  obtain ⟨⟨a', b'⟩, hfind, rfl⟩ := Option.map_eq_some_iff.mp h
  obtain rfl : a' = a := by simpa using List.find?_some hfind
  exact List.mem_of_find?_eq_some hfind

/-- A table whose second entries differ can be read backwards. -/
theorem map_find?_back {β : Type} [DecidableEq α] [DecidableEq β] {rows : List (α × β)}
    (hnodup : (rows.map (·.2)).Nodup) {a : α} {b : β}
    (h : (rows.find? fun row => row.1 = a).map (·.2) = some b) :
    (rows.find? fun row => row.2 = b).map (·.1) = some a := by
  have hmem := mem_of_map_find? h
  cases hfind : rows.find? fun row => row.2 = b with
  | none => simpa using List.find?_eq_none.mp hfind _ hmem
  | some row =>
    have hsame : row.2 = b := by simpa using List.find?_some hfind
    have hrow := List.inj_on_of_nodup_map hnodup (List.mem_of_find?_eq_some hfind) hmem hsame
    rw [Option.map_some, hrow]

/-- The values of a table, each with its line. -/
def LineFormat.table [DecidableEq α] (rows : List (α × List UInt8)) : LineFormat α where
  line a := (rows.find? fun row => row.1 = a).map (·.2)
  readLine l := (rows.find? fun row => row.2 = l).map (·.1)

theorem LineFormat.lawful_table [DecidableEq α] {rows : List (α × List UInt8)}
    (hnodup : (rows.map (·.2)).Nodup) (hlines : ∀ row ∈ rows, newline ∉ row.2) : (table rows).Lawful :=
  ⟨fun h => hlines _ (mem_of_map_find? h), map_find?_back hnodup⟩

end Text
