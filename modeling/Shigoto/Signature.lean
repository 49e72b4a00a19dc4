import Shigoto.Failure

/-!
# Signatures and severity markers

A signature is the first informative line after one `error:` or `warning:` is stripped off the front.
Markers may follow each other, on one line or on several (`IsHead`). `markerFree_iff` says what the one
stripping is good for: the markers are gone exactly if nothing but space follows each of the others on its
line.

* `content_head` — a head of such markers does not change the content of the text behind it.
* `starts_content_iff` — the content starts with a marker as soon as one of them has company.
-/

namespace Shigoto

open Text

variable {s t u v : List Char} {c : Char}

/-! ## The content of a text -/

theorem content_eq (s : List Char) :
    content s = (((splitInclusive s).map trim).find? informative).getD [] := by
  rw [content, lines, List.map_map]
  exact congrArg (fun f => (((splitInclusive s).map f).find? informative).getD [])
    (funext trim_stripLineEnd)

theorem content_line (h : '\n' ∉ s) (t : List Char) :
    content (s ++ '\n' :: t) = if informative (trim s) then trim s else content t := by
  have htrim : trim (s ++ ['\n']) = trim s := trim_append_blank s (by decide)
  rw [content_eq, content_eq, splitInclusive_line h, List.map_cons, htrim, List.find?_cons]
  cases informative (trim s) <;> rfl

theorem content_last (h : '\n' ∉ s) :
    content s = if informative (trim s) then trim s else [] := by
  cases s with
  | nil => rfl
  | cons c s =>
    rw [content_eq, splitInclusive_last h (List.cons_ne_nil c s), List.map_singleton, List.find?_cons]
    cases informative (trim (c :: s)) <;> rfl

/-- A text is its first line, or a line and a text. -/
theorem line_cases (s : List Char) : '\n' ∉ s ∨ ∃ line rest, '\n' ∉ line ∧ s = line ++ '\n' :: rest := by
  by_cases h : '\n' ∈ s
  · obtain ⟨line, rest, rfl, hline⟩ := List.eq_append_cons_of_mem h
    exact .inr ⟨line, rest, hline, rfl⟩
  · exact .inl h

/-- The first line. -/
def firstLine (s : List Char) : List Char := s.takeWhile (· ≠ '\n')

theorem firstLine_of_not_mem (h : '\n' ∉ s) : firstLine s = s :=
  List.takeWhile_eq_self_iff.mpr fun c hc => by
    have : c ≠ '\n' := fun heq => h (heq ▸ hc)
    simpa using this

theorem firstLine_append (h : '\n' ∉ s) (t : List Char) : firstLine (s ++ t) = s ++ firstLine t :=
  List.takeWhile_append_of_pos fun c hc => by
    have : c ≠ '\n' := fun heq => h (heq ▸ hc)
    simpa using this

theorem firstLine_line (h : '\n' ∉ s) (t : List Char) : firstLine (s ++ '\n' :: t) = s := by
  rw [firstLine_append h]
  simp [firstLine]

theorem content_of_informative (h : informative (trim (firstLine s)) = true) :
    content s = trim (firstLine s) := by
  obtain hlast | ⟨line, rest, hline, rfl⟩ := line_cases s
  · rw [firstLine_of_not_mem hlast] at h ⊢
    rw [content_last hlast, if_pos h]
  · rw [firstLine_line hline] at h ⊢
    rw [content_line hline, if_pos h]

@[simp] theorem content_white (h : isWhite c = true) : content (c :: s) = content s := by
  by_cases hc : c = '\n'
  · subst hc
    exact content_line (s := []) List.not_mem_nil s
  · have hmem : ∀ l : List Char, '\n' ∉ l → '\n' ∉ c :: l := fun l hl => by
      simpa [Ne.symm hc] using hl
    obtain hlast | ⟨line, rest, hline, rfl⟩ := line_cases s
    · rw [content_last hlast, content_last (hmem s hlast), trim_cons_white h]
    · rw [content_line hline, ← List.cons_append, content_line (hmem line hline), trim_cons_white h]

/-- The content is trimmed. -/
theorem trim_content (s : List Char) : trim (content s) = content s := by
  rw [content]
  cases hfind : ((lines s).map trim).find? informative with
  | none => rfl
  | some line =>
    obtain ⟨raw, -, rfl⟩ := List.mem_map.mp (List.mem_of_find?_eq_some hfind)
    exact trim_trim raw

/-! ## Markers -/

inductive Severity
  | error
  | warning
  deriving DecidableEq, Repr

def Severity.marker : Severity → List Char
  | .error => "error:".toList
  | .warning => "warning:".toList

/-- A marker, and the space behind it. -/
structure Mark where
  severity : Severity
  space : List Char
  blank : Blank space

def Mark.text (k : Mark) : List Char := k.severity.marker ++ k.space

/-- A text of nothing but space and markers. -/
inductive IsHead : List Char → Prop
  | nil : IsHead []
  | white {d : Char} {l : List Char} (hd : isWhite d = true) (h : IsHead l) : IsHead (d :: l)
  | marker {l : List Char} (m : Severity) (h : IsHead l) : IsHead (m.marker ++ l)

/-- Nothing but space follows a marker of the head on its line. -/
def MarkersBlank (s : List Char) : Prop :=
  ∀ u m v, s = u ++ (Severity.marker m ++ v) → IsHead u → Blank (firstLine v)

/-- The same of the markers that do not begin the text. -/
def MarkersAlone (s : List Char) : Prop :=
  ∀ u m v, s = u ++ (Severity.marker m ++ v) → IsHead u → u ≠ [] → Blank (firstLine v)

def Starts (s : List Char) : Prop := ∃ m : Severity, m.marker <+: s

theorem marker_eq_cons (m : Severity) : ∃ c l, m.marker = c :: l ∧ isWhite c = false := by
  cases m
  · exact ⟨'e', "rror:".toList, by decide, by decide⟩
  · exact ⟨'w', "arning:".toList, by decide, by decide⟩

/-- The first letter tells the markers apart. -/
theorem marker_append_inj {m m' : Severity} (h : m.marker ++ s = m'.marker ++ t) : m = m' ∧ s = t := by
  have hhead : ∀ m m' : Severity, m.marker.head? = m'.marker.head? → m = m' := by
    intro m m' h
    cases m <;> cases m' <;> first | rfl | exact absurd h (by decide)
  obtain ⟨c, l, hm, -⟩ := marker_eq_cons m
  obtain ⟨d, l', hm', -⟩ := marker_eq_cons m'
  have hcd : c = d := by
    rw [hm, hm'] at h
    exact List.head_eq_of_cons_eq h
  obtain rfl := hhead m m' (by rw [hm, hm', hcd]; rfl)
  exact ⟨rfl, List.append_cancel_left h⟩

theorem not_starts_white (h : isWhite c = true) : ¬ Starts (c :: s) := by
  rintro ⟨m, hm⟩
  obtain ⟨d, l, heq, hd⟩ := marker_eq_cons m
  rw [heq, List.cons_prefix_cons] at hm
  rw [hm.1, h] at hd
  exact nomatch hd

/-- A head that is not empty starts with space or with a marker. -/
theorem IsHead.cases (h : IsHead u) : u = [] ∨ (∃ c s, u = c :: s ∧ isWhite c = true ∧ IsHead s) ∨
    ∃ m s, u = Severity.marker m ++ s ∧ IsHead s := by
  cases h with
  | nil => exact .inl rfl
  | white hc h => exact .inr (.inl ⟨_, _, rfl, hc, h⟩)
  | marker m h => exact .inr (.inr ⟨m, _, rfl, h⟩)

theorem IsHead.append_blank (h : Blank u) (ht : IsHead t) : IsHead (u ++ t) := by
  induction u with
  | nil => exact ht
  | cons c u ih =>
    exact .white (h c List.mem_cons_self) (ih fun d hd => h d (List.mem_cons_of_mem _ hd))

theorem isHead_marks (ks : List Mark) : IsHead (ks.flatMap Mark.text) := by
  induction ks with
  | nil => exact .nil
  | cons k ks ih =>
    rw [List.flatMap_cons, Mark.text, List.append_assoc]
    exact .marker k.severity (ih.append_blank k.blank)

/-! ### Markers and the head of a text -/

theorem MarkersBlank.suffix (h : MarkersBlank (u ++ s)) (hu : IsHead u) : MarkersBlank s := by
  intro u' m v heq hu'
  refine h (u ++ u') m v (by rw [heq, List.append_assoc]) ?_
  clear heq h
  induction hu with
  | nil => exact hu'
  | white hc _ ih => exact .white hc ih
  | marker m _ ih => exact List.append_assoc .. ▸ .marker m ih

@[simp] theorem markersBlank_white (hc : isWhite c = true) : MarkersBlank (c :: s) ↔ MarkersBlank s := by
  refine ⟨fun h => h.suffix (u := [c]) (.white hc .nil), fun h u m v heq hu => ?_⟩
  obtain rfl | ⟨d, u', rfl, -, hu'⟩ | ⟨m', u', rfl, -⟩ := hu.cases
  · exact absurd ⟨m, v, heq.symm⟩ (not_starts_white hc)
  · exact h u' m v (List.tail_eq_of_cons_eq heq) hu'
  · exact absurd ⟨m', u' ++ (m.marker ++ v), by rw [heq, List.append_assoc]⟩ (not_starts_white hc)

theorem markersAlone_marker (m : Severity) (v : List Char) :
    MarkersAlone (m.marker ++ v) ↔ MarkersBlank v := by
  constructor
  · intro h u m' v' heq hu
    obtain ⟨c, l, hm, -⟩ := marker_eq_cons m
    exact h (m.marker ++ u) m' v' (by rw [heq, List.append_assoc]) (.marker m hu) (by simp [hm])
  · intro h u m' v' heq hu hne
    obtain rfl | ⟨c, u', rfl, hc, -⟩ | ⟨m'', u', rfl, hu'⟩ := hu.cases
    · exact absurd rfl hne
    · exact absurd ⟨m, v, heq⟩ (not_starts_white hc)
    · rw [List.append_assoc] at heq
      obtain ⟨-, hv⟩ := marker_append_inj heq
      exact h u' m' v' hv hu'

theorem markersBlank_marker (m : Severity) (v : List Char) :
    MarkersBlank (m.marker ++ v) ↔ Blank (firstLine v) ∧ MarkersBlank v := by
  constructor
  · intro h
    exact ⟨h [] m v rfl .nil, h.suffix (by simpa using IsHead.marker m .nil)⟩
  · rintro ⟨hblank, h⟩ u m' v' heq hu
    obtain rfl | hne := eq_or_ne u []
    · obtain ⟨-, rfl⟩ := marker_append_inj heq
      exact hblank
    · exact (markersAlone_marker m v).mpr h u m' v' heq hu hne

/-- No marker at the start: none in the head. -/
theorem markersBlank_of_not_starts (hc : isWhite c = false) (h : ¬ Starts (c :: s)) :
    MarkersBlank (c :: s) := by
  intro u m v heq hu
  obtain rfl | ⟨d, u', rfl, hd, -⟩ | ⟨m', u', rfl, -⟩ := hu.cases
  · exact absurd ⟨m, v, heq.symm⟩ h
  · rw [List.head_eq_of_cons_eq heq, hd] at hc
    exact nomatch hc
  · exact absurd ⟨m', u' ++ (m.marker ++ v), by rw [heq, List.append_assoc]⟩ h

/-! ### Markers and the content -/

theorem informative_eq (line : List Char) :
    informative line = true ↔ line ≠ [] ∧ ∀ m : Severity, line ≠ m.marker := by
  have hmarkers : (∀ m : Severity, line ≠ m.marker) ↔
      line ≠ Severity.error.marker ∧ line ≠ Severity.warning.marker :=
    ⟨fun h => ⟨h _, h _⟩, fun h m => by cases m; exacts [h.1, h.2]⟩
  have hline : informative line =
      (!line.isEmpty && line ≠ Severity.error.marker && line ≠ Severity.warning.marker) := rfl
  rw [hmarkers, hline]
  simp [and_assoc]

theorem newline_not_mem_marker (m : Severity) : '\n' ∉ m.marker := by
  cases m <;> decide

/-- A bare marker is skipped. -/
theorem content_marker {m : Severity} (h : Blank (firstLine v)) : content (m.marker ++ v) = content v := by
  have hmarker : trim m.marker = m.marker := by cases m <;> decide
  have hbare : informative m.marker = false := by cases m <;> decide
  have hmem : ∀ l : List Char, '\n' ∉ l → '\n' ∉ m.marker ++ l := fun l hl => by
    rw [List.mem_append, not_or]
    exact ⟨newline_not_mem_marker m, hl⟩
  obtain hlast | ⟨line, rest, hline, rfl⟩ := line_cases v
  · rw [firstLine_of_not_mem hlast] at h
    rw [content_last hlast, content_last (hmem v hlast), trim_append_blank _ h, hmarker, hbare,
      trim_blank h]
    rfl
  · rw [firstLine_line hline] at h
    rw [content_line hline, ← List.append_assoc, content_line (hmem line hline),
      trim_append_blank _ h, hmarker, hbare, trim_blank h]
    rfl

/-- **A head of lone markers does not change the content.** -/
theorem content_head (hu : IsHead u) (h : MarkersBlank (u ++ s)) : content (u ++ s) = content s := by
  induction hu with
  | nil => rfl
  | white hc _ ih =>
    rw [List.cons_append, content_white hc]
    exact ih ((markersBlank_white hc).mp h)
  | marker m _ ih =>
    rw [List.append_assoc, markersBlank_marker] at h
    rw [List.append_assoc, content_marker h.1]
    exact ih h.2

/-- A marker with company on its line starts the content. -/
theorem starts_content_marker {m : Severity} (h : ¬ Blank (firstLine v)) :
    Starts (content (m.marker ++ v)) := by
  obtain ⟨c, l, hm, hc⟩ := marker_eq_cons m
  obtain ⟨d, hmem, hd⟩ : ∃ d ∈ firstLine v, isWhite d = false := by
    simpa [Blank] using h
  obtain ⟨a, b, hline⟩ := List.append_of_mem hmem
  have htrim : trim (firstLine (m.marker ++ v)) = m.marker ++ (a ++ d :: trimEnd b) := by
    rw [firstLine_append (newline_not_mem_marker m), hline, hm]
    simpa [trimStart] using trim_append [] (l ++ a) b hc hd
  have hinformative : informative (trim (firstLine (m.marker ++ v))) = true := by
    rw [htrim, informative_eq]
    refine ⟨by simp, fun m' heq => ?_⟩
    rw [← List.append_nil m'.marker] at heq
    have hnil := (marker_append_inj heq).2
    simp at hnil
  rw [content_of_informative hinformative, htrim]
  exact ⟨m, List.prefix_append _ _⟩

/-- Without a marker at the start, the first line is the content. -/
theorem content_of_not_starts (hc : isWhite c = false) (h : ¬ Starts (c :: s)) :
    ¬ Starts (content (c :: s)) := by
  have hcn : c ≠ '\n' := fun heq => by
    rw [heq] at hc
    exact absurd hc (by decide)
  have hfirst : firstLine (c :: s) = c :: firstLine s := by simp [firstLine, hcn]
  have htrim : trim (firstLine (c :: s)) = c :: trimEnd (firstLine s) := by rw [hfirst, trim_cons hc]
  have hsub : c :: trimEnd (firstLine s) <+: c :: s :=
    List.cons_prefix_cons.mpr ⟨rfl, (List.rdropWhile_prefix _ _).trans (List.takeWhile_prefix _)⟩
  have hinformative : informative (trim (firstLine (c :: s))) = true := by
    rw [htrim, informative_eq]
    exact ⟨List.cons_ne_nil _ _, fun m heq => h ⟨m, heq ▸ hsub⟩⟩
  rw [content_of_informative hinformative, htrim]
  exact fun ⟨m, hm⟩ => h ⟨m, hm.trans hsub⟩

/-- **The content starts with a marker as soon as one in the head has company.** -/
theorem starts_content_iff (s : List Char) : Starts (content s) ↔ ¬ MarkersBlank s := by
  -- along the head of the text: space, lone markers, then the first line that counts
  induction hlen : s.length using Nat.strongRecOn generalizing s with
  | ind n ih =>
    by_cases hstart : Starts s
    · obtain ⟨m, v, rfl⟩ := hstart
      by_cases hblank : Blank (firstLine v)
      · have hlt : v.length < n := by
          obtain ⟨c, l, hm, -⟩ := marker_eq_cons m
          rw [← hlen, hm, List.length_append, List.length_cons]
          omega
        rw [content_marker hblank, markersBlank_marker, ih _ hlt v rfl]
        exact not_congr (iff_and_self.mpr fun _ => hblank)
      · exact iff_of_true (starts_content_marker hblank) fun h =>
          hblank ((markersBlank_marker m v).mp h).1
    · cases s with
      | nil =>
        refine iff_of_false hstart (not_not.mpr fun u m v heq _ => ?_)
        obtain ⟨c, l, hm, -⟩ := marker_eq_cons m
        simp [hm] at heq
      | cons c s =>
        by_cases hc : isWhite c = true
        · rw [content_white hc, markersBlank_white hc]
          exact ih _ (by simp [← hlen]) s rfl
        · have hc : isWhite c = false := Bool.eq_false_iff.mpr hc
          exact iff_of_false (content_of_not_starts hc hstart)
            (not_not.mpr (markersBlank_of_not_starts hc hstart))

/-! ## The one stripping -/

theorem severityPrefixes_eq : severityPrefixes =
    [Severity.error.marker ++ [' '], Severity.warning.marker ++ [' '], Severity.error.marker,
      Severity.warning.marker] := by
  decide +kernel

theorem stripPrefix_other {m m' : Severity} (h : m' ≠ m) (end' v : List Char) :
    stripPrefix (m'.marker ++ end') (m.marker ++ v) = none := by
  rw [Option.eq_none_iff_forall_ne_some]
  intro rest hrest
  have heq := stripPrefix_eq_some.mp hrest
  rw [List.append_assoc] at heq
  exact h (marker_append_inj heq).1.symm

/-- What is stripped is a marker, perhaps with a space. -/
theorem stripSeverity_marker (m : Severity) (v : List Char) :
    stripSeverity (m.marker ++ v) = v ∨ v = ' ' :: stripSeverity (m.marker ++ v) := by
  have hbare := stripPrefix_append m.marker v
  by_cases hspace : ∃ rest, v = ' ' :: rest
  · obtain ⟨rest, rfl⟩ := hspace
    have hlong : stripPrefix (m.marker ++ [' ']) (m.marker ++ ' ' :: rest) = some rest := by
      simpa using stripPrefix_append (m.marker ++ [' ']) rest
    rw [stripSeverity, severityPrefixes_eq]
    cases m with
    | error => simp [List.findSome?, hlong]
    | warning => simp [List.findSome?, hlong, stripPrefix_other (show Severity.error ≠ .warning by decide)]
  · have hlong : stripPrefix (m.marker ++ [' ']) (m.marker ++ v) = none := by
      rw [Option.eq_none_iff_forall_ne_some]
      intro rest hrest
      have heq := stripPrefix_eq_some.mp hrest
      rw [List.append_assoc] at heq
      exact hspace ⟨rest, List.append_cancel_left heq⟩
    rw [stripSeverity, severityPrefixes_eq]
    have hother : ∀ m' ≠ m, stripPrefix m'.marker (m.marker ++ v) = none := fun m' hne => by
      simpa using stripPrefix_other hne [] v
    cases m with
    | error =>
      simp [List.findSome?, hlong, hbare, stripPrefix_other (show Severity.warning ≠ .error by decide)]
    | warning =>
      simp [List.findSome?, hlong, hbare, hother .error (by decide),
        stripPrefix_other (show Severity.error ≠ .warning by decide)]

theorem stripSeverity_of_not_starts (h : ¬ Starts s) : stripSeverity s = s := by
  have hnone : ∀ (m : Severity) (end' : List Char), stripPrefix (m.marker ++ end') s = none := by
    intro m end'
    rw [Option.eq_none_iff_forall_ne_some]
    intro rest hrest
    exact h ⟨m, end' ++ rest, by rw [stripPrefix_eq_some.mp hrest, List.append_assoc]⟩
  have hbare : ∀ m : Severity, stripPrefix m.marker s = none := fun m => by simpa using hnone m []
  rw [stripSeverity, severityPrefixes_eq]
  simp [List.findSome?, hnone, hbare]

/-- A marker at the start, and a space behind it, never count. -/
theorem content_stripSeverity (m : Severity) (v : List Char) :
    content (stripSeverity (m.marker ++ v)) = content v := by
  obtain heq | heq := stripSeverity_marker m v
  · rw [heq]
  · exact (content_white (by decide)).symm.trans (congrArg content heq.symm)

theorem markersBlank_stripSeverity (s : List Char) : MarkersBlank (stripSeverity s) ↔ MarkersAlone s := by
  by_cases hstart : Starts s
  · obtain ⟨m, v, rfl⟩ := hstart
    rw [markersAlone_marker]
    obtain heq | heq := stripSeverity_marker m v
    · rw [heq]
    · exact (markersBlank_white (by decide)).symm.trans (iff_of_eq (congrArg MarkersBlank heq.symm))
  · rw [stripSeverity_of_not_starts hstart]
    refine ⟨fun h u m v heq hu _ => h u m v heq hu, fun h u m v heq hu => h u m v heq hu ?_⟩
    rintro rfl
    exact hstart ⟨m, v, heq.symm⟩

/-! ## Signatures -/

theorem signatureChars_eq (raw : List Char) :
    signatureChars raw = truncate (content (stripSeverity raw)) 80 := by
  rw [signatureChars, trim_content]

theorem marker_length (m : Severity) : m.marker.length ≤ 80 := by cases m <;> decide

theorem starts_truncate (s : List Char) : Starts (truncate s 80) ↔ Starts s := by
  unfold truncate
  split
  · exact Iff.rfl
  · next hlong =>
    refine exists_congr fun m => ?_
    have hm := marker_length m
    have htake : s.take 80 <+: s := List.take_prefix 80 s
    have hlen : (s.take 80).length = 80 := by
      rw [List.length_take]
      omega
    constructor
    · intro h
      exact (List.prefix_of_prefix_length_le h (List.prefix_append _ _) (by omega)).trans htake
    · intro h
      exact (List.prefix_of_prefix_length_le h htake (by omega)).trans (List.prefix_append _ _)

/-- **The signature starts with a marker exactly if one has company.** -/
theorem starts_signature_iff (raw : List Char) :
    Starts (signatureChars raw) ↔ ¬ MarkersAlone raw := by
  rw [signatureChars_eq, starts_truncate, starts_content_iff, markersBlank_stripSeverity]

theorem content_marks {ks : List Mark} {raw : List Char}
    (h : MarkersAlone (ks.flatMap Mark.text ++ raw)) :
    content (stripSeverity (ks.flatMap Mark.text ++ raw)) = content (stripSeverity raw) := by
  cases ks with
  | nil => rfl
  | cons k ks =>
    have htext : (k :: ks).flatMap Mark.text ++ raw =
        k.severity.marker ++ ((k.space ++ ks.flatMap Mark.text) ++ raw) := by
      simp [Mark.text]
    have hhead : IsHead (k.space ++ ks.flatMap Mark.text) := (isHead_marks ks).append_blank k.blank
    rw [htext, markersAlone_marker] at h
    rw [htext, content_stripSeverity, content_head hhead h]
    -- the text itself starts with a lone marker, if with any
    have hraw := h.suffix hhead
    by_cases hstart : Starts raw
    · obtain ⟨m, v, rfl⟩ := hstart
      rw [content_stripSeverity, content_marker ((markersBlank_marker m v).mp hraw).1]
    · rw [stripSeverity_of_not_starts hstart]

/-! ### The signature of a signature -/

/-- The content is one line. -/
theorem newline_not_mem_content (s : List Char) : '\n' ∉ content s := by
  induction hlen : s.length using Nat.strongRecOn generalizing s with
  | ind n ih =>
    obtain hlast | ⟨line, rest, hline, rfl⟩ := line_cases s
    · rw [content_last hlast]
      split
      · exact fun hmem => hlast (mem_of_mem_trim hmem)
      · exact List.not_mem_nil
    · rw [content_line hline]
      split
      · exact fun hmem => hline (mem_of_mem_trim hmem)
      · refine ih _ ?_ rest rfl
        rw [← hlen, List.length_append, List.length_cons]
        omega

theorem truncate_truncate (s : List Char) (max : Nat) :
    truncate (truncate s max) max = truncate s max := by
  unfold truncate
  grind

/-- Truncating leaves nothing to trim. -/
theorem trim_truncate (h : trim s = s) : trim (truncate s 80) = truncate s 80 := by
  unfold truncate
  split
  · exact h
  · next hlong =>
    obtain hnil | ⟨c, t, hc, hcons⟩ := trim_cases s
    · rw [h] at hnil
      simp [hnil] at hlong
    · have hdots : trim (c :: (trimEnd t).take 79 ++ ['…']) = c :: (trimEnd t).take 79 ++ ['…'] :=
        trim_append [] ((trimEnd t).take 79) [] hc (by decide)
      rw [← h, hcons]
      exact hdots

theorem content_truncate (htrim : trim s = s) (hline : '\n' ∉ s) (h : ¬ Starts s) :
    content (truncate s 80) = truncate s 80 := by
  have hline' : '\n' ∉ truncate s 80 := by
    unfold truncate
    split
    · exact hline
    · rw [List.mem_append, not_or]
      exact ⟨fun hmem => hline (List.mem_of_mem_take hmem), by decide⟩
  rw [← starts_truncate] at h
  rw [content_last hline', trim_truncate htrim]
  split
  · rfl
  · next hbare =>
    rw [informative_eq, not_and_or, not_not, not_forall] at hbare
    obtain hnil | ⟨m, hm⟩ := hbare
    · exact hnil.symm
    · exact absurd ⟨m, [], by rw [List.append_nil, not_not.mp hm]⟩ h

theorem signatureChars_again {raw : List Char} (h : MarkersAlone raw) :
    signatureChars (signatureChars raw) = signatureChars raw := by
  have hstart : ¬ Starts (content (stripSeverity raw)) := by
    rw [starts_content_iff, markersBlank_stripSeverity]
    exact not_not.mpr h
  rw [signatureChars_eq, signatureChars_eq raw,
    stripSeverity_of_not_starts ((starts_truncate _).not.mpr hstart),
    content_truncate (trim_content _) (newline_not_mem_content _) hstart, truncate_truncate]

/-- What a signature without markers is, when `ks` may be prepended. -/
structure MarkerFree (raw : String) (ks : List Mark) : Prop where
  start : ∀ m : Severity, ¬ m.marker <+: (signature raw).toList
  prepended : signature (String.ofList (ks.flatMap Mark.text) ++ raw) = signature raw
  again : signature (signature raw) = signature raw

theorem toList_signature (raw : String) : (signature raw).toList = signatureChars raw.toList :=
  String.toList_ofList

theorem signature_inj {raw raw' : String} :
    signature raw = signature raw' ↔ signatureChars raw.toList = signatureChars raw'.toList := by
  rw [← toList_signature, ← toList_signature, String.toList_inj]

theorem MarkersAlone.of_marks {ks : List Mark} {raw : List Char}
    (h : MarkersAlone (ks.flatMap Mark.text ++ raw)) : MarkersAlone raw := by
  cases ks with
  | nil => exact h
  | cons k ks =>
    rw [List.flatMap_cons, Mark.text, List.append_assoc, List.append_assoc, markersAlone_marker,
      ← List.append_assoc] at h
    intro u m v heq hu _
    exact h.suffix ((isHead_marks ks).append_blank k.blank) u m v heq hu

/-- **A signature is free of markers exactly where nothing but space follows each marker on its line**, but for
one that begins the text. There are always markers to prepend that break this. -/
theorem markerFree_iff (raw : String) :
    (∀ ks, MarkerFree raw ks ↔ MarkersAlone (ks.flatMap Mark.text ++ raw.toList)) ∧
      ∃ ks, ¬ MarkerFree raw ks := by
  have hprepended : ∀ ks : List Mark, (String.ofList (ks.flatMap Mark.text) ++ raw).toList =
      ks.flatMap Mark.text ++ raw.toList := fun ks => by
    rw [String.toList_append, String.toList_ofList]
  have hiff : ∀ ks, MarkerFree raw ks ↔ MarkersAlone (ks.flatMap Mark.text ++ raw.toList) := by
    intro ks
    constructor
    · intro h
      have hsame := signature_inj.mp h.prepended
      rw [hprepended] at hsame
      refine not_not.mp fun hcompany => ?_
      obtain ⟨m, hm⟩ := hsame ▸ (starts_signature_iff _).mpr hcompany
      exact h.start m (by rwa [toList_signature])
    · intro h
      have hraw := h.of_marks
      refine ⟨fun m hm => ?_, ?_, ?_⟩
      · rw [toList_signature] at hm
        exact (starts_signature_iff raw.toList).mp ⟨m, hm⟩ hraw
      · rw [signature_inj, hprepended, signatureChars_eq, signatureChars_eq raw.toList, content_marks h]
      · rw [signature_inj, toList_signature, signatureChars_again hraw]
  refine ⟨hiff, List.replicate 3 ⟨.error, [], by decide⟩, fun h => ?_⟩
  -- of three markers in a row, the second has the third for company
  have hblank : Blank (firstLine (Severity.error.marker ++ raw.toList)) :=
    (hiff _).mp h Severity.error.marker .error _
      (by simp [List.replicate, Mark.text]) (by simpa using IsHead.marker .error .nil) (by decide)
  rw [firstLine_append (newline_not_mem_marker .error)] at hblank
  exact absurd (hblank 'e' (List.mem_append_left _ (by decide))) (by decide)

/-- One stripping leaves the second marker. -/
theorem markerFree_nested : ¬ MarkerFree "error: warning: disk full" [] :=
  fun h => h.start .warning (by decide +kernel)

end Shigoto
