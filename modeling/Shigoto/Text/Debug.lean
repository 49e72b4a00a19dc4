import Shigoto.Text.Delimited
import Shigoto.Text.Utf8
import Mathlib.Data.List.Basic

/-!
# Quoted text

The `{:?}` rendering of strings and of byte strings: between quotes, each character as it is, or escaped
where it would not show. Which characters show is a table (`shown`). The rendering tells any two values
apart whatever the table says (`debugStr_delimited`, `debugBytes_delimited`).
-/

namespace Text

/-- The letter behind the backslash, of a character with an escape of its own. Between double quotes, a single
quote stays as it is. -/
def shortEscape (c : Char) : Option Char :=
  if c = '\x00' then some '0'
  else if c = '\t' then some 't'
  else if c = '\r' then some 'r'
  else if c = '\n' then some 'n'
  else if c = '\x22' ∨ c = '\\' then some c
  else none

/-- The code point in hexadecimal digits. -/
def hexCode (c : Char) : List Char := Nat.toDigits 16 c.toNat

/-- `char::escape_debug_ext`, without the escape of single quotes. -/
def escapeDebug (shown : Char → Bool) (c : Char) : List Char :=
  match shortEscape c with
  | some letter => ['\\', letter]
  | none => if shown c then [c] else ['\\', 'u', '\x7b'] ++ (hexCode c ++ ['\x7d'])

/-- A hexadecimal digit in capitals. -/
def upperHex (n : Nat) : Char := n.digitChar.toUpper

/-- A byte that is no text. -/
def escapeByte (b : UInt8) : List Char :=
  ['\\', 'x', upperHex (b.toNat / 16), upperHex (b.toNat % 16)]

def Piece.escape (shown : Char → Bool) : Piece → List Char
  | .char c => escapeDebug shown c
  | .broken bytes => bytes.flatMap escapeByte

/-- `{:?}` of a `str`. -/
def debugStr (shown : Char → Bool) (s : String) : String :=
  String.ofList ('\x22' :: (s.toList.flatMap (escapeDebug shown) ++ ['\x22']))

/-- `{:?}` of an `OsStr`. -/
def debugBytes (shown : Char → Bool) (bytes : List UInt8) : String :=
  String.ofList ('\x22' :: ((pieces bytes).flatMap (Piece.escape shown) ++ ['\x22']))

/-! ## Digits -/

theorem toDigits_injective {base m n : Nat} (hbase : 1 < base) (hle : base ≤ 16)
    (heq : Nat.toDigits base m = Nat.toDigits base n) : m = n := by
  have hdigit : ∀ m < 16, ∀ n < 16, m.digitChar = n.digitChar → m = n := by decide
  have hne : ∀ m, Nat.toDigits base m ≠ [] := fun _ => Nat.toDigits_ne_nil
  induction m using Nat.strongRecOn generalizing n with
  | ind m ih =>
    rw [Nat.toDigits_eq_if hbase, Nat.toDigits_eq_if hbase (n := n)] at heq
    split at heq
    · next hm =>
      split at heq
      · next hn => exact hdigit m (by omega) n (by omega) (List.head_eq_of_cons_eq heq)
      · have hlen := congrArg List.length heq
        simp [hne] at hlen
    · next hm =>
      split at heq
      · have hlen := congrArg List.length heq
        simp [hne] at hlen
      · obtain ⟨hrest, hlast⟩ := List.append_inj' heq rfl
        have hquot := ih (m / base) (Nat.div_lt_self (by omega) hbase) hrest
        have hpos : base > 0 := Nat.lt_trans Nat.one_pos hbase
        have hm' := Nat.mod_lt m hpos
        have hn' := Nat.mod_lt n hpos
        have hrem := hdigit (m % base) (by omega) (n % base) (by omega)
          (List.head_eq_of_cons_eq hlast)
        rw [← Nat.div_add_mod m base, ← Nat.div_add_mod n base, hquot, hrem]

theorem hexCode_injective : Function.Injective hexCode :=
  fun _ _ heq => Char.toNat_inj.mp (toDigits_injective (by decide) (by decide) heq)

/-- The closing brace is no digit. -/
theorem brace_not_mem_hexCode (c : Char) : '\x7d' ∉ hexCode c := by
  have hdigit : ∀ n < 16, n.digitChar ≠ '\x7d' := by decide
  unfold hexCode
  induction c.toNat using Nat.strongRecOn with
  | ind n ih =>
    rw [Nat.toDigits_eq_if (by decide)]
    split
    · next hn =>
      rw [List.mem_singleton]
      exact (hdigit n hn).symm
    · rw [List.mem_append, List.mem_singleton, not_or]
      exact ⟨ih (n / 16) (by omega), (hdigit _ (Nat.mod_lt n (by decide))).symm⟩

theorem escapeByte_injective : Function.Injective escapeByte := by
  have hdigit : ∀ m < 16, ∀ n < 16, upperHex m = upperHex n → m = n := by decide
  intro a b heq
  have ha := a.toNat_lt
  have hb := b.toNat_lt
  simp only [escapeByte, List.cons.injEq, true_and, and_true] at heq
  have hhigh := hdigit _ (by omega) _ (by omega) heq.1
  have hlow := hdigit _ (by omega) _ (by omega) heq.2
  exact UInt8.toNat_inj.mp (by omega)

/-! ## Characters -/

variable {shown : Char → Bool} {a b c : Char}

theorem shortEscape_injective {letter : Char} (ha : shortEscape a = some letter)
    (hb : shortEscape b = some letter) : a = b := by
  unfold shortEscape at ha hb
  split_ifs at ha hb <;> simp_all <;> grind

/-- The letters that introduce a code are no escapes of their own. -/
theorem shortEscape_ne {letter : Char} (h : shortEscape c = some letter) :
    letter ≠ 'u' ∧ letter ≠ 'x' := by
  unfold shortEscape at h
  grind

theorem ne_of_shortEscape_none (h : shortEscape c = none) : c ≠ '\x22' ∧ c ≠ '\\' := by
  unfold shortEscape at h
  grind

/-- A character is shown, has an escape of its own, or is given by its code. -/
theorem escapeDebug_cases (shown : Char → Bool) (c : Char) :
    (∃ letter, shortEscape c = some letter ∧ escapeDebug shown c = ['\\', letter]) ∨
    (c ≠ '\x22' ∧ c ≠ '\\') ∧ (escapeDebug shown c = [c] ∨
      escapeDebug shown c = ['\\', 'u', '\x7b'] ++ (hexCode c ++ ['\x7d'])) := by
  unfold escapeDebug
  cases hshort : shortEscape c with
  | some letter => exact .inl ⟨letter, rfl, rfl⟩
  | none =>
    refine .inr ⟨ne_of_shortEscape_none hshort, ?_⟩
    by_cases hshown : shown c = true
    · exact .inl (if_pos hshown)
    · exact .inr (if_neg hshown)

theorem escapeDebug_delimited (shown : Char → Bool) :
    Delimited (escapeDebug shown) := by
  intro a b s t heq
  rcases escapeDebug_cases shown a with ⟨x, hx, ha⟩ | ⟨hplain, ha | ha⟩ <;>
    rcases escapeDebug_cases shown b with ⟨y, hy, hb⟩ | ⟨hplain', hb | hb⟩ <;>
    rw [ha, hb] at heq
  · obtain ⟨rfl, rfl⟩ : x = y ∧ s = t := by simpa using heq
    exact ⟨shortEscape_injective hx hy, rfl⟩
  · grind
  · -- a letter against a code, which the `u` tells apart
    have := (shortEscape_ne hx).1
    grind
  · grind
  · grind
  · grind
  · have := (shortEscape_ne hy).1
    grind
  · grind
  · -- two codes: each ends at its closing brace
    have hcode : Delimited fun c => hexCode c ++ ['\x7d'] :=
      Delimited.text hexCode_injective brace_not_mem_hexCode
    exact hcode.after ['\\', 'u', '\x7b'] a b s t heq

/-- No escape starts with the closing quote. -/
theorem escapeDebug_start (shown : Char → Bool) (c : Char) :
    ∃ d cs, escapeDebug shown c = d :: cs ∧ d ≠ '\x22' := by
  rcases escapeDebug_cases shown c with ⟨letter, -, h⟩ | ⟨hplain, h | h⟩
  · exact ⟨_, _, h, by decide⟩
  · exact ⟨_, _, h, hplain.1⟩
  · exact ⟨_, _, h, by decide⟩

/-! ## Strings -/

/-- **The rendering of a string tells where it ends.** -/
theorem debugStr_delimited (shown : Char → Bool) : Delimited fun s => (debugStr shown s).toList := by
  have hchars := (escapeDebug_delimited shown).list (escapeDebug_start shown)
  have hquoted := (hchars.after ['\x22']).comp (f := String.toList) fun _ _ => String.toList_inj.mp
  simpa [debugStr] using hquoted

/-! ## Byte strings -/

/-- A character, or one byte of an error. -/
abbrev Mark := Char ⊕ UInt8

def Piece.marks : Piece → List Mark
  | .char c => [.inl c]
  | .broken bytes => bytes.map .inr

def markBytes : Mark → List UInt8
  | .inl c => String.utf8EncodeChar c
  | .inr b => [b]

def escapeMark (shown : Char → Bool) : Mark → List Char
  | .inl c => escapeDebug shown c
  | .inr b => escapeByte b

theorem escapeMark_delimited (shown : Char → Bool) : Delimited (escapeMark shown) := by
  -- a character never looks like a byte of an error: no letter escape is an `x`
  have hmixed : ∀ {c b s t}, escapeDebug shown c ++ s ≠ escapeByte b ++ t := by
    intro c b s t heq
    rcases escapeDebug_cases shown c with ⟨letter, hletter, h⟩ | ⟨hplain, h | h⟩
    · have := (shortEscape_ne hletter).2
      grind [escapeByte]
    · grind [escapeByte]
    · grind [escapeByte]
  rintro (a | a) (b | b) s t heq
  · obtain ⟨rfl, hst⟩ := escapeDebug_delimited shown a b s t heq
    exact ⟨rfl, hst⟩
  · exact absurd heq hmixed
  · exact absurd heq.symm hmixed
  · obtain ⟨hbyte, hst⟩ := List.append_inj heq rfl
    exact ⟨congrArg _ (escapeByte_injective hbyte), hst⟩

theorem marks_injective : Function.Injective fun bytes => (pieces bytes).flatMap Piece.marks := by
  -- the marks spell the bytes, as the pieces do
  have hmarks : ∀ bytes, ((pieces bytes).flatMap Piece.marks).flatMap markBytes = bytes := fun bytes => by
    rw [List.flatMap_assoc]
    refine Eq.trans (List.flatMap_congr fun piece _ => ?_) (pieces_bytes bytes)
    cases piece with
    | char c => simp [Piece.marks, markBytes, Piece.bytes]
    | broken bytes => simp [Piece.marks, markBytes, Piece.bytes, List.flatMap_map]
  intro bytes bytes' heq
  rw [← hmarks bytes, ← hmarks bytes']
  exact congrArg _ heq

/-- **The rendering of a byte string tells where it ends.** -/
theorem debugBytes_delimited (shown : Char → Bool) :
    Delimited fun bytes => (debugBytes shown bytes).toList := by
  have hstart : ∀ u, ∃ d cs, escapeMark shown u = d :: cs ∧ d ≠ '\x22' := by
    rintro (c | b)
    · exact escapeDebug_start shown c
    · exact ⟨_, _, rfl, by decide⟩
  have hescape : Piece.escape shown = fun piece => piece.marks.flatMap (escapeMark shown) := by
    funext piece
    cases piece with
    | char c => simp [Piece.escape, Piece.marks, escapeMark]
    | broken bytes => simp [Piece.escape, Piece.marks, escapeMark, List.flatMap_map]
  have hmarks := (((escapeMark_delimited shown).list hstart).after ['\x22']).comp marks_injective
  simp only [List.flatMap_assoc] at hmarks
  simpa [debugBytes, hescape] using hmarks

end Text
