import Mathlib.Data.List.DropRight

/-!
# Lines and surrounding space

`str::trim`, `str::lines` and `strip_prefix` on lists of characters.

* `trim_append` — between two characters that are no space, nothing is trimmed.
* `splitInclusive_append` — a line that is ended is a line of its own, whatever follows it.
* `stripPrefix_append_cons` — nothing is stripped across a character that the prefix does not have.
-/

namespace Text

/-! ## Space -/

/-- `char::is_whitespace`: the characters with the `White_Space` property. -/
def isWhite (c : Char) : Bool :=
  let n := c.toNat
  (9 ≤ n && n ≤ 13) || n = 0x20 || n = 0x85 || n = 0xA0 || n = 0x1680 || (0x2000 ≤ n && n ≤ 0x200A) ||
    n = 0x2028 || n = 0x2029 || n = 0x202F || n = 0x205F || n = 0x3000

def trimStart (s : List Char) : List Char := s.dropWhile isWhite

def trimEnd (s : List Char) : List Char := s.rdropWhile isWhite

/-- `str::trim`. -/
def trim (s : List Char) : List Char := trimEnd (trimStart s)

/-- Nothing but space. -/
def Blank (s : List Char) : Prop := ∀ c ∈ s, isWhite c = true

instance (s : List Char) : Decidable (Blank s) := List.decidableBAll (fun c => isWhite c = true) s

variable {s t : List Char} {c : Char}

@[simp] theorem trimStart_cons_white (h : isWhite c = true) : trimStart (c :: s) = trimStart s :=
  List.dropWhile_cons_of_pos h

theorem trimStart_append_blank (h : Blank s) (t : List Char) : trimStart (s ++ t) = trimStart t :=
  List.dropWhile_append_of_pos h

/-- A character that is no space stops it. -/
theorem trimStart_append_cons (s t : List Char) (h : isWhite c = false) :
    trimStart (s ++ c :: t) = trimStart s ++ c :: t := by
  rw [trimStart, List.dropWhile_append]
  split
  · next hempty =>
    rw [trimStart, List.isEmpty_iff.mp hempty, List.dropWhile_cons_of_neg (by simp [h])]
    rfl
  · rfl

theorem trimEnd_append_cons (s t : List Char) (h : isWhite c = false) :
    trimEnd (s ++ c :: t) = s ++ c :: trimEnd t := by
  have hstart := trimStart_append_cons t.reverse s.reverse h
  rw [trimEnd, trimEnd, List.rdropWhile, List.rdropWhile]
  simpa [trimStart] using congrArg List.reverse hstart

theorem trimEnd_append_blank (s : List Char) (h : Blank t) : trimEnd (s ++ t) = trimEnd s := by
  have hblank : Blank t.reverse := fun c hc => h c (List.mem_reverse.mp hc)
  have hstart := trimStart_append_blank hblank s.reverse
  rw [trimEnd, trimEnd, List.rdropWhile, List.rdropWhile, List.reverse_append]
  exact congrArg List.reverse hstart

@[simp] theorem trim_nil : trim [] = [] := rfl

@[simp] theorem trim_cons_white (h : isWhite c = true) : trim (c :: s) = trim s := by
  rw [trim, trim, trimStart_cons_white h]

theorem trim_append_blank (s : List Char) (h : Blank t) : trim (s ++ t) = trim s := by
  rw [trim, trim, trimStart, List.dropWhile_append]
  split
  · next hempty =>
    have hnil : t.dropWhile isWhite = [] := List.dropWhile_eq_nil_iff.mpr h
    rw [hnil, trimStart, List.isEmpty_iff.mp hempty]
  · exact trimEnd_append_blank _ h

theorem trim_blank (h : Blank s) : trim s = [] := trim_append_blank [] h

/-- Between two characters that are no space, nothing is trimmed. -/
theorem trim_append {d : Char} (s t u : List Char) (hc : isWhite c = false) (hd : isWhite d = false) :
    trim (s ++ c :: t ++ d :: u) = trimStart s ++ c :: t ++ d :: trimEnd u := by
  rw [trim, List.append_assoc, List.cons_append, trimStart_append_cons _ _ hc, ← List.cons_append,
    ← List.append_assoc, trimEnd_append_cons _ _ hd]

theorem trim_cons (hc : isWhite c = false) : trim (c :: s) = c :: trimEnd s := by
  have hstart := trimStart_append_cons [] s hc
  rw [trim, show trimStart (c :: s) = c :: s from hstart]
  exact trimEnd_append_cons [] s hc

/-- Either all is space, or the trimmed text starts with its first character that is none. -/
theorem trim_cases (s : List Char) :
    trim s = [] ∨ ∃ c t, isWhite c = false ∧ trim s = c :: trimEnd t := by
  cases hstart : trimStart s with
  | nil =>
    refine .inl ?_
    rw [trim, hstart]
    rfl
  | cons c t =>
    have hc : isWhite c = false := by
      have hhead := List.head?_dropWhile_not isWhite s
      rw [trimStart] at hstart
      simpa [hstart] using hhead
    refine .inr ⟨c, t, hc, ?_⟩
    rw [trim, hstart]
    exact trimEnd_append_cons [] t hc

@[simp] theorem trim_trim (s : List Char) : trim (trim s) = trim s := by
  obtain hnil | ⟨c, t, hc, htrim⟩ := trim_cases s
  · rw [hnil, trim_nil]
  · rw [htrim, trim_cons hc]
    exact congrArg (c :: ·) (List.rdropWhile_idempotent isWhite t)

theorem mem_of_mem_trim (h : c ∈ trim s) : c ∈ s :=
  (List.dropWhile_suffix isWhite).mem ((List.rdropWhile_prefix isWhite _).mem h)

/-! ## Lines -/

/-- `split_inclusive('\n')`. -/
def splitInclusive : List Char → List (List Char)
  | [] => []
  | c :: s =>
    if c = '\n' then [c] :: splitInclusive s
    else match splitInclusive s with
      | [] => [[c]]
      | line :: rest => (c :: line) :: rest

/-- `strip_suffix` of one character. -/
def stripSuffix (c : Char) (line : List Char) : Option (List Char) :=
  if line.getLast? = some c then some line.dropLast else none

/-- A line without its line break; a carriage return is only one in front of a line feed. -/
def stripLineEnd (line : List Char) : List Char :=
  match stripSuffix '\n' line with
  | none => line
  | some line => (stripSuffix '\r' line).getD line

/-- `str::lines`. -/
def lines (s : List Char) : List (List Char) := (splitInclusive s).map stripLineEnd

theorem splitInclusive_line (h : '\n' ∉ s) (t : List Char) :
    splitInclusive (s ++ '\n' :: t) = (s ++ ['\n']) :: splitInclusive t := by
  induction s with
  | nil => simp [splitInclusive]
  | cons c s ih =>
    have hc : c ≠ '\n' := fun heq => h (heq ▸ List.mem_cons_self)
    simp [splitInclusive, hc, ih fun hmem => h (List.mem_cons_of_mem _ hmem)]

theorem splitInclusive_last (h : '\n' ∉ s) (hne : s ≠ []) : splitInclusive s = [s] := by
  induction s with
  | nil => exact absurd rfl hne
  | cons c s ih =>
    have hc : c ≠ '\n' := fun heq => h (heq ▸ List.mem_cons_self)
    by_cases hs : s = []
    · simp [hs, splitInclusive, hc]
    · simp [splitInclusive, hc, ih (fun hmem => h (List.mem_cons_of_mem _ hmem)) hs]

theorem splitInclusive_ne_nil (h : s ≠ []) : splitInclusive s ≠ [] := by
  cases s with
  | nil => exact absurd rfl h
  | cons c s =>
    rw [splitInclusive]
    split
    · exact List.cons_ne_nil _ _
    · split <;> exact List.cons_ne_nil _ _

/-- A line that is ended is a line of its own, whatever follows it. -/
theorem splitInclusive_append (h : s = [] ∨ s.getLast? = some '\n') (t : List Char) :
    splitInclusive (s ++ t) = splitInclusive s ++ splitInclusive t := by
  induction s with
  | nil => rfl
  | cons c s ih =>
    have hlast : (c :: s).getLast? = some '\n' := h.resolve_left (List.cons_ne_nil c s)
    rw [List.cons_append, splitInclusive, splitInclusive]
    by_cases hs : s = []
    · subst hs
      have hc : c = '\n' := by simpa using hlast
      rw [if_pos hc, if_pos hc]
      rfl
    · have hend : s.getLast? = some '\n' := by rwa [List.getLast?_cons_of_ne_nil hs] at hlast
      rw [ih (.inr hend)]
      split
      · rfl
      · cases hsplit : splitInclusive s with
        | nil => exact absurd hsplit (splitInclusive_ne_nil hs)
        | cons line rest => rfl

/-- What a line loses is trimmed anyway. -/
theorem trim_stripLineEnd (line : List Char) : trim (stripLineEnd line) = trim line := by
  have hsuffix : ∀ c line rest, isWhite c = true → stripSuffix c line = some rest →
      trim line = trim rest := by
    intro c line rest hc h
    unfold stripSuffix at h
    split at h
    · next hlast =>
      obtain ⟨front, rfl⟩ := List.getLast?_eq_some_iff.mp hlast
      rw [List.dropLast_concat] at h
      rw [← Option.some.inj h]
      exact trim_append_blank front (by simpa [Blank] using hc)
    · exact nomatch h
  unfold stripLineEnd
  split
  · rfl
  · next rest hrest =>
    rw [hsuffix '\n' line rest (by decide) hrest]
    cases hreturn : stripSuffix '\r' rest with
    | none => rfl
    | some front => exact (hsuffix '\r' rest front (by decide) hreturn).symm

/-! ## Prefixes -/

/-- `str::strip_prefix`. -/
def stripPrefix (pat s : List Char) : Option (List Char) :=
  if pat.isPrefixOf s then some (s.drop pat.length) else none

theorem stripPrefix_eq_some {pat : List Char} : stripPrefix pat s = some t ↔ s = pat ++ t := by
  unfold stripPrefix
  constructor
  · intro h
    split at h
    · next hpat =>
      obtain ⟨rest, rfl⟩ := List.isPrefixOf_iff_prefix.mp hpat
      simpa using h
    · exact nomatch h
  · rintro rfl
    simp

theorem stripPrefix_append (pat s : List Char) : stripPrefix pat (pat ++ s) = some s :=
  stripPrefix_eq_some.mpr rfl

/-- Nothing is stripped across a character that the prefix does not have. -/
theorem stripPrefix_append_cons {pat : List Char} (h : c ∉ pat) (s t : List Char) :
    stripPrefix pat (s ++ c :: t) = (stripPrefix pat s).map (· ++ c :: t) := by
  cases hstrip : stripPrefix pat s with
  | some rest =>
    rw [stripPrefix_eq_some.mp hstrip, List.append_assoc]
    exact stripPrefix_append _ _
  | none =>
    rw [Option.map_none, Option.eq_none_iff_forall_ne_some]
    intro rest hrest
    obtain hlong | hshort := List.append_eq_append_iff.mp (stripPrefix_eq_some.mp hrest)
    · obtain ⟨u, rfl, hu⟩ := hlong
      cases u with
      | nil => exact Option.some_ne_none _ ((stripPrefix_append s []).symm.trans (by simpa using hstrip))
      | cons d u =>
        obtain ⟨rfl, -⟩ := List.cons.inj hu
        exact h (by simp)
    · obtain ⟨u, rfl, -⟩ := hshort
      exact Option.some_ne_none _ ((stripPrefix_append pat u).symm.trans hstrip)

end Text
