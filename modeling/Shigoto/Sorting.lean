import Mathlib.Data.List.Sort

/-!
# Sorting by key

A stable sort by key is a function of the elements alone exactly where no two of them share a key.

* `sortBy_eq_of_perm` — distinct keys: any two orders of the same elements are sorted alike.
* `sortBy_congr` — two keys that order the elements alike sort them alike.
* `sortBy_ne_of_swap` — two keys that do not order a pair alike: two orders that disagree on the pair are
  sorted differently.
* `pairwise_lt_sortBy` — distinct keys: the result is strictly sorted.
* `before_sortBy` — whatever else is sorted with them, the smaller of two keys comes first.
-/

namespace Sorting

variable {α κ : Type} [LinearOrder κ] {key : α → κ}

/-- No two elements of the list share a key. -/
def KeysDistinct (key : α → κ) (l : List α) : Prop := ∀ a ∈ l, ∀ b ∈ l, key a = key b → a = b

omit [LinearOrder κ] in
theorem KeysDistinct.perm {l l' : List α} (h : KeysDistinct key l) (hperm : l.Perm l') :
    KeysDistinct key l' :=
  fun a ha b hb => h a (hperm.mem_iff.mpr ha) b (hperm.mem_iff.mpr hb)

section

variable [DecidableRel fun a b : α => key a ≤ key b]

/-- `sort_by_key`: sort by key, keeping the order of equal keys. -/
abbrev sortBy (key : α → κ) [DecidableRel fun a b : α => key a ≤ key b] (l : List α) : List α :=
  l.insertionSort fun a b => key a ≤ key b

theorem sortBy_perm (l : List α) : (sortBy key l).Perm l := List.perm_insertionSort _ l

theorem pairwise_sortBy (l : List α) : (sortBy key l).Pairwise fun a b => key a ≤ key b := by
  have htotal : Std.Total fun a b : α => key a ≤ key b := ⟨fun a b => le_total (key a) (key b)⟩
  have htrans : IsTrans α fun a b => key a ≤ key b := ⟨fun _ _ _ => le_trans⟩
  exact List.pairwise_insertionSort _ l

/-- **Distinct keys: the input order does not show.** -/
theorem sortBy_eq_of_perm {l l' : List α} (h : KeysDistinct key l) (hperm : l.Perm l') :
    sortBy key l = sortBy key l' := by
  have hsorted : (sortBy key l).Perm (sortBy key l') :=
    (sortBy_perm l).trans (hperm.trans (sortBy_perm l').symm)
  refine hsorted.eq_of_pairwise (fun a b ha hb hab hba => ?_) (pairwise_sortBy l) (pairwise_sortBy l')
  have ha' : a ∈ l := (sortBy_perm l).mem_iff.mp ha
  have hb' : b ∈ l := (hperm.trans (sortBy_perm l').symm).mem_iff.mpr hb
  exact h a ha' b hb' (le_antisymm hab hba)

/-- **Keys that order the elements alike**: neither the keys nor the input order show. -/
theorem sortBy_congr {key' : α → κ} [DecidableRel fun a b : α => key' a ≤ key' b] {l l' : List α}
    (hperm : l.Perm l') (h : ∀ a ∈ l, ∀ b ∈ l, a ≠ b →
      key a < key b ∧ key' a < key' b ∨ key b < key a ∧ key' b < key' a) : sortBy key l = sortBy key' l' := by
  have hsorted : (sortBy key l).Perm (sortBy key' l') :=
    (sortBy_perm l).trans (hperm.trans (sortBy_perm l').symm)
  have hsorted' : (sortBy key' l').Pairwise fun a b => key a ≤ key b := by
    refine (pairwise_sortBy l').imp_of_mem fun {a b} ha hb hle => ?_
    by_cases heq : a = b
    · rw [heq]
    · have hmem : ∀ {c}, c ∈ sortBy key' l' → c ∈ l := fun hc =>
        (hperm.trans (sortBy_perm l').symm).mem_iff.mpr hc
      rcases h a (hmem ha) b (hmem hb) heq with ⟨hlt, -⟩ | ⟨-, hlt⟩
      · exact hlt.le
      · exact absurd hle hlt.not_ge
  refine hsorted.eq_of_pairwise (fun a b ha hb hab hba => ?_) (pairwise_sortBy l) hsorted'
  by_contra hne
  have hb' : b ∈ l := (hperm.trans (sortBy_perm l').symm).mem_iff.mpr hb
  rcases h a ((sortBy_perm l).mem_iff.mp ha) b hb' hne with ⟨hlt, -⟩ | ⟨hlt, -⟩
  · exact absurd hba hlt.not_ge
  · exact absurd hab hlt.not_ge

/-- Elements that are in order already stay so, even with one key. -/
theorem pair_sublist_sortBy {l : List α} {a b : α} (h : [a, b].Sublist l) (hkey : key a ≤ key b) :
    [a, b].Sublist (sortBy key l) := by
  have htotal : Std.Total fun a b : α => key a ≤ key b := ⟨fun a b => le_total (key a) (key b)⟩
  have htrans : IsTrans α fun a b => key a ≤ key b := ⟨fun _ _ _ => le_trans⟩
  exact List.pair_sublist_insertionSort hkey h

/-- **Distinct keys: the result is strictly sorted.** -/
theorem pairwise_lt_sortBy {l : List α} (h : KeysDistinct key l) (hnodup : l.Nodup) :
    (sortBy key l).Pairwise fun a b => key a < key b := by
  have hnodup' : (sortBy key l).Nodup := (sortBy_perm l).nodup_iff.mpr hnodup
  refine ((pairwise_sortBy l).and hnodup').imp_of_mem fun {a b} ha hb hab => ?_
  refine lt_of_le_of_ne hab.1 fun heq => hab.2 ?_
  exact h a ((sortBy_perm l).mem_iff.mp ha) b ((sortBy_perm l).mem_iff.mp hb) heq

end

/-! ## Ties -/

/-- Without repetition, a pair occurs in one order only. -/
theorem eq_of_both_sublist {l : List α} {a b : α} (hnodup : l.Nodup) (hab : [a, b].Sublist l)
    (hba : [b, a].Sublist l) : a = b := by
  induction l with
  | nil => grind
  | cons c l ih => grind

/-- Two elements occur in one order or the other. -/
theorem pair_sublist_or {l : List α} {a b : α} (ha : a ∈ l) (hb : b ∈ l) (hne : a ≠ b) :
    [a, b].Sublist l ∨ [b, a].Sublist l := by
  induction l with
  | nil => grind
  | cons c l ih => grind

/-- **A pair that two keys do not order alike shows**: with the two elements the other way round, the result
is another one. -/
theorem sortBy_ne_of_swap {key' : α → κ} [DecidableRel fun a b : α => key a ≤ key b]
    [DecidableRel fun a b : α => key' a ≤ key' b] {l l' : List α} {a b : α} (hnodup : l.Nodup)
    (hab : [a, b].Sublist l) (hba : [b, a].Sublist l') (hne : a ≠ b) (hkey : key a ≤ key b)
    (hkey' : key' b ≤ key' a) : sortBy key l ≠ sortBy key' l' := by
  intro heq
  have hfirst := pair_sublist_sortBy hab hkey
  have hsecond := pair_sublist_sortBy hba hkey'
  rw [← heq] at hsecond
  exact hne (eq_of_both_sublist ((sortBy_perm l).nodup_iff.mpr hnodup) hfirst hsecond)

/-! ## Which of two comes first -/

/-- Both occur, and the first nowhere after the second. -/
def Before (l : List α) (a b : α) : Prop := [a, b].Sublist l ∧ ¬ [b, a].Sublist l

instance [DecidableEq α] (l : List α) (a b : α) : Decidable (Before l a b) :=
  inferInstanceAs (Decidable (_ ∧ _))

/-- The smaller key comes first. -/
theorem before_sortBy [DecidableRel fun a b : α => key a ≤ key b] {l : List α} {a b : α} (ha : a ∈ l)
    (hb : b ∈ l) (hkey : key a < key b) : Before (sortBy key l) a b := by
  have hba : ¬ [b, a].Sublist (sortBy key l) := by
    intro hsub
    have hle : key b ≤ key a := by simpa using (pairwise_sortBy l).sublist hsub
    exact absurd hkey hle.not_gt
  have hperm : (sortBy key l).Perm l := sortBy_perm l
  have hne : a ≠ b := fun heq => hkey.ne (congrArg key heq)
  have hor := pair_sublist_or (hperm.mem_iff.mpr ha) (hperm.mem_iff.mpr hb) hne
  exact ⟨hor.resolve_right hba, hba⟩

/-- A pair whose keys are in order stays as it is. -/
theorem not_before_sortBy_pair [DecidableRel fun a b : α => key a ≤ key b] {a b : α}
    (hkey : key b ≤ key a) : ¬ Before (sortBy key [b, a]) a b :=
  fun h => h.2 (pair_sublist_sortBy (List.Sublist.refl _) hkey)

/-- What a prefix of an ordered list leaves out comes after all of the prefix. -/
theorem rel_of_mem_take_of_not_mem_take {R : α → α → Prop} {l : List α} {n : Nat} {a b : α}
    (hsorted : l.Pairwise R) (ha : a ∈ l.take n) (hb : b ∈ l) (hbout : b ∉ l.take n) : R a b := by
  rw [← List.take_append_drop n l] at hsorted hb
  have hbdrop := (List.mem_append.mp hb).resolve_left hbout
  exact (List.pairwise_append.mp hsorted).2.2 a ha b hbdrop

end Sorting
