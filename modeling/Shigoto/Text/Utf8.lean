/-!
# Reading bytes as UTF-8, with errors

A byte string falls into pieces: characters, and bytes between them that encode none. An error takes as
many bytes as a character could still start with, the way a replacement character stands for them.

* `pieces_bytes` — the pieces spell the bytes.
* `lossy` — the text with a replacement character for each error. It does not tell bytes apart.
* `readText` — the text that bytes spell, if they spell one. It reads what `textBytes` writes.
-/

namespace Text

/-- A part of a byte string: a character, or bytes that encode none. -/
inductive Piece
  | char (c : Char)
  | broken (bytes : List UInt8)
  deriving DecidableEq, Repr

def Piece.bytes : Piece → List UInt8
  | .char c => String.utf8EncodeChar c
  | .broken bytes => bytes

/-- A continuation byte. -/
def isTail (b : UInt8) : Bool := 0x80 ≤ b && b ≤ 0xBF

/-- Whether a character of three or four bytes may start with these two. -/
def startsLong (first second : UInt8) : Bool :=
  (first = 0xE0 && 0xA0 ≤ second && second ≤ 0xBF) ||
  (0xE1 ≤ first && first ≤ 0xEC && isTail second) ||
  (first = 0xED && 0x80 ≤ second && second ≤ 0x9F) ||
  (0xEE ≤ first && first ≤ 0xEF && isTail second) ||
  (first = 0xF0 && 0x90 ≤ second && second ≤ 0xBF) ||
  (0xF1 ≤ first && first ≤ 0xF3 && isTail second) ||
  (first = 0xF4 && 0x80 ≤ second && second ≤ 0x8F)

/-- How many bytes an error takes, where no character starts. -/
def brokenLength : List UInt8 → Nat
  | first :: second :: rest =>
    if startsLong first second then
      match rest with
      -- two tails of the three that a four-byte character has
      | third :: _ => if 0xF0 ≤ first && isTail third then 3 else 2
      | [] => 2
    else 1
  | _ => 1

def firstPiece (bytes : List UInt8) : Piece :=
  match bytes.toByteArray.utf8DecodeChar? 0 with
  | some c => .char c
  | none => .broken (bytes.take (brokenLength bytes))

/-- The first `count` pieces. -/
def takePieces : Nat → List UInt8 → List Piece
  | 0, _ => []
  | _ + 1, [] => []
  | count + 1, b :: bytes =>
    let piece := firstPiece (b :: bytes)
    piece :: takePieces count ((b :: bytes).drop piece.bytes.length)

/-- The pieces of a byte string; there are at most as many as bytes. -/
def pieces (bytes : List UInt8) : List Piece := takePieces bytes.length bytes

/-- One character for each piece. -/
def Piece.shown : Piece → Char
  | .char c => c
  | .broken _ => '\uFFFD'

/-- `to_string_lossy`. -/
def lossy (bytes : List UInt8) : String := String.ofList ((pieces bytes).map Piece.shown)

/-! ## The pieces spell the bytes -/

theorem brokenLength_pos (bytes : List UInt8) : 0 < brokenLength bytes := by
  unfold brokenLength
  grind

theorem utf8DecodeChar?_spells {bytes : List UInt8} {c : Char}
    (h : bytes.toByteArray.utf8DecodeChar? 0 = some c) : String.utf8EncodeChar c <+: bytes := by
  obtain ⟨rest, hrest⟩ := ByteArray.exists_of_utf8DecodeChar?_eq_some h
  refine ⟨rest.data.toList, ?_⟩
  have hdata := congrArg (fun b => b.data.toList) hrest
  simpa using hdata.symm

theorem firstPiece_spells (bytes : List UInt8) : (firstPiece bytes).bytes <+: bytes := by
  unfold firstPiece
  split
  · next c hc => exact utf8DecodeChar?_spells hc
  · exact List.take_prefix _ _

theorem firstPiece_ne_nil {bytes : List UInt8} (h : bytes ≠ []) : (firstPiece bytes).bytes ≠ [] := by
  unfold firstPiece
  split
  · next c hc =>
    intro hnil
    have hlen := congrArg List.length hnil
    rw [Piece.bytes, String.length_utf8EncodeChar] at hlen
    exact absurd hlen (Nat.ne_of_gt c.utf8Size_pos)
  · next hnone =>
    have hpos := brokenLength_pos bytes
    simp only [Piece.bytes, ne_eq, List.take_eq_nil_iff, not_or]
    exact ⟨Nat.ne_of_gt hpos, h⟩

theorem takePieces_bytes {count : Nat} {bytes : List UInt8} (h : bytes.length ≤ count) :
    (takePieces count bytes).flatMap Piece.bytes = bytes := by
  induction count generalizing bytes with
  | zero =>
    obtain rfl := List.length_eq_zero_iff.mp (Nat.le_zero.mp h)
    rfl
  | succ count ih =>
    cases bytes with
    | nil => rfl
    | cons b bytes =>
      have hpos := List.length_pos_iff.mpr (firstPiece_ne_nil (List.cons_ne_nil b bytes))
      have hrest : ((b :: bytes).drop (firstPiece (b :: bytes)).bytes.length).length ≤ count := by
        rw [List.length_drop]
        omega
      -- every piece takes at least one byte, so the fuel lasts
      rw [takePieces, List.flatMap_cons, ih hrest]
      exact List.prefix_iff_eq_append.mp (firstPiece_spells (b :: bytes))

/-- **The pieces spell the bytes.** -/
theorem pieces_bytes (bytes : List UInt8) : (pieces bytes).flatMap Piece.bytes = bytes :=
  takePieces_bytes (Nat.le_refl _)

/-- Two bytes that are no text are shown alike. -/
example : lossy [0xFE] = lossy [0xFF] := by decide +kernel

/-! ## Texts -/

/-- The encoding of a text. -/
def textBytes (text : String) : List UInt8 := text.toList.flatMap String.utf8EncodeChar

def Piece.char? : Piece → Option Char
  | .char c => some c
  | .broken _ => none

/-- The text that a byte string spells, if it does not contain an error. -/
def readText (bytes : List UInt8) : Option String :=
  ((pieces bytes).mapM Piece.char?).map String.ofList

theorem firstPiece_encode (c : Char) (bytes : List UInt8) :
    firstPiece (String.utf8EncodeChar c ++ bytes) = .char c := by
  unfold firstPiece
  rw [List.toByteArray_append, ByteArray.utf8DecodeChar?_utf8EncodeChar_append]

theorem takePieces_encode {count : Nat} {chars : List Char}
    (h : (chars.flatMap String.utf8EncodeChar).length ≤ count) :
    takePieces count (chars.flatMap String.utf8EncodeChar) = chars.map .char := by
  induction chars generalizing count with
  | nil => cases count <;> rfl
  | cons c chars ih =>
    have hpos : 0 < (String.utf8EncodeChar c).length := by
      rw [String.length_utf8EncodeChar]
      exact c.utf8Size_pos
    rw [List.flatMap_cons, List.length_append] at h
    rw [List.flatMap_cons]
    cases count with
    | zero => omega
    | succ count =>
      have hne : String.utf8EncodeChar c ++ chars.flatMap String.utf8EncodeChar ≠ [] :=
        List.append_ne_nil_of_left_ne_nil (List.length_pos_iff.mp hpos) _
      obtain ⟨b, bytes, hbytes⟩ := List.exists_cons_of_ne_nil hne
      have hpiece := firstPiece_encode c (chars.flatMap String.utf8EncodeChar)
      rw [hbytes] at hpiece ⊢
      rw [takePieces, hpiece, ← hbytes, Piece.bytes, List.drop_left, ih (by omega), List.map_cons]

/-- **What was written as text is read as it was.** -/
theorem readText_textBytes (text : String) : readText (textBytes text) = some text := by
  have hpieces : pieces (textBytes text) = text.toList.map .char := takePieces_encode (Nat.le_refl _)
  have hchars : (text.toList.map Piece.char).mapM Piece.char? = some text.toList := by
    induction text.toList with
    | nil => rfl
    | cons c chars ih => simp [ih, Piece.char?]
  rw [readText, hpieces, hchars, Option.map_some, String.ofList_toList]

end Text
