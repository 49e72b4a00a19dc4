import Mathlib.Logic.Function.Basic

/-!
# Encodings that tell where they end

An encoding into lists is `Delimited` when what follows an encoded value does not blur it: a reader can
take the value off the front and is left with the rest. Such encodings are injective, and they compose:
by fixed text before or after, one after the other, and as a list with a mark at its end.
-/

namespace Text

variable {α β γ κ : Type} {enc : α → List γ} {enc' : β → List γ}

/-- The value and what follows it can be told from the whole. -/
def Delimited (enc : α → List γ) : Prop :=
  ∀ a b s t, enc a ++ s = enc b ++ t → a = b ∧ s = t

namespace Delimited

theorem injective (h : Delimited enc) : Function.Injective enc := by
  intro a b heq
  exact (h a b [] [] (congrArg (· ++ []) heq)).1

theorem comp (h : Delimited enc) {f : κ → α} (hf : Function.Injective f) :
    Delimited fun k => enc (f k) := by
  intro a b s t heq
  obtain ⟨hab, hst⟩ := h _ _ s t heq
  exact ⟨hf hab, hst⟩

/-- Fixed text before a value. -/
theorem after (h : Delimited enc) (text : List γ) : Delimited fun a => text ++ enc a := by
  intro a b s t heq
  rw [List.append_assoc, List.append_assoc] at heq
  exact h a b s t (List.append_cancel_left heq)

/-- Fixed text behind a value. -/
theorem before (h : Delimited enc) (text : List γ) : Delimited fun a => enc a ++ text := by
  intro a b s t heq
  rw [List.append_assoc, List.append_assoc] at heq
  obtain ⟨rfl, hst⟩ := h a b _ _ heq
  exact ⟨rfl, List.append_cancel_left hst⟩

/-- One value after the other. -/
theorem pair (h : Delimited enc) (h' : Delimited enc') :
    Delimited fun p : α × β => enc p.1 ++ enc' p.2 := by
  rintro ⟨a, a'⟩ ⟨b, b'⟩ s t heq
  rw [List.append_assoc, List.append_assoc] at heq
  obtain ⟨rfl, hrest⟩ := h a b _ _ heq
  obtain ⟨rfl, hst⟩ := h' a' b' s t hrest
  exact ⟨rfl, hst⟩

/-- Values up to a mark that starts none of them. -/
theorem list (h : Delimited enc) {stop : γ} (hstop : ∀ a, ∃ c cs, enc a = c :: cs ∧ c ≠ stop) :
    Delimited fun as : List α => as.flatMap enc ++ [stop] := by
  intro as bs s t heq
  simp only [List.append_assoc, List.singleton_append] at heq
  induction as generalizing bs with
  | nil =>
    cases bs with
    | nil => exact ⟨rfl, List.tail_eq_of_cons_eq heq⟩
    | cons b bs =>
      obtain ⟨c, cs, hb, hc⟩ := hstop b
      rw [List.flatMap_cons, hb] at heq
      exact absurd (List.head_eq_of_cons_eq heq).symm hc
  | cons a as ih =>
    cases bs with
    | nil =>
      obtain ⟨c, cs, ha, hc⟩ := hstop a
      rw [List.flatMap_cons, ha] at heq
      exact absurd (List.head_eq_of_cons_eq heq) hc
    | cons b bs =>
      rw [List.flatMap_cons, List.flatMap_cons, List.append_assoc, List.append_assoc] at heq
      obtain ⟨rfl, hrest⟩ := h a b _ _ heq
      obtain ⟨rfl, hst⟩ := ih bs hrest
      exact ⟨rfl, hst⟩

/-- Text without the mark, up to the mark. -/
theorem text {stop : γ} {f : κ → List γ} (hf : Function.Injective f) (hstop : ∀ k, stop ∉ f k) :
    Delimited fun k => f k ++ [stop] := by
  have hinj : ∀ {l l' s t : List γ}, stop ∉ l → stop ∉ l' → l ++ stop :: s = l' ++ stop :: t →
      l = l' ∧ s = t := by
    intro l l' s t hl hl' heq
    induction l generalizing l' with
    | nil => cases l' <;> grind
    | cons c l ih => cases l' <;> grind
  intro a b s t heq
  simp only [List.append_assoc, List.singleton_append] at heq
  obtain ⟨hab, hst⟩ := hinj (hstop a) (hstop b) heq
  exact ⟨hf hab, hst⟩

end Delimited

end Text
