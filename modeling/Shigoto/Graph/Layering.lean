import Mathlib.Logic.Relation
import Mathlib.Order.MinMax

/-!
# Longest-path layerings

Layers of a relation, each element as low as its predecessors permit. A depth is `Tight` when it grows
along the relation and is never higher than one predecessor makes it; the tight depth of an element is
the length of the longest path that ends there (`Tight.longest`), and no layer below it is empty
(`Tight.exists_of_le`). Folding the depths of the predecessors (`deepest`) gives a tight depth.
-/

namespace Layering

variable {α : Type} {r : α → α → Prop} {depth : α → Nat} {a b c : α} {n k : Nat}

/-! ## Paths -/

/-- A path of `n` edges. -/
inductive Path (r : α → α → Prop) : α → α → Nat → Prop
  | nil (a : α) : Path r a a 0
  | snoc {a b c : α} {n : Nat} (path : Path r a b n) (edge : r b c) : Path r a c (n + 1)

/-- `n` is the length of the longest path that ends at `a`. -/
def Longest (r : α → α → Prop) (a : α) (n : Nat) : Prop :=
  (∃ b, Path r b a n) ∧ ∀ b k, Path r b a k → k ≤ n

/-! ## Tight depths -/

/-- Elements are above their predecessors, and no higher than they have to be. -/
structure Tight (r : α → α → Prop) (depth : α → Nat) : Prop where
  above : ∀ a b, r a b → depth a < depth b
  attained : ∀ b, depth b = 0 ∨ ∃ a, r a b ∧ depth b = depth a + 1

theorem Tight.le_of_path (h : Tight r depth) (path : Path r a b n) : depth a + n ≤ depth b := by
  induction path with
  | nil => exact le_rfl
  | snoc path edge ih =>
    have := h.above _ _ edge
    omega

/-- From any lower layer a path leads up to the element. -/
theorem Tight.exists_path (h : Tight r depth) (hk : k ≤ depth a) :
    ∃ b, depth b = k ∧ Path r b a (depth a - k) := by
  induction hn : depth a - k generalizing a with
  | zero =>
    have heq : depth a = k := by omega
    exact ⟨a, heq, .nil a⟩
  | succ n ih =>
    rcases h.attained a with hzero | ⟨b, edge, hb⟩
    · omega
    · obtain ⟨c, hc, path⟩ := ih (a := b) (by omega) (by omega)
      exact ⟨c, hc, path.snoc edge⟩

/-- **A tight depth is the length of the longest path.** -/
theorem Tight.longest (h : Tight r depth) (a : α) : Longest r a (depth a) := by
  obtain ⟨b, -, path⟩ := h.exists_path (Nat.zero_le (depth a))
  refine ⟨⟨b, path⟩, fun c k path' => ?_⟩
  have := h.le_of_path path'
  omega

/-- **No layer is skipped**: below an element there is one on every layer. -/
theorem Tight.exists_of_le (h : Tight r depth) {p : α → Prop} (hp : ∀ a b, r a b → p a) (ha : p a)
    (hk : k ≤ depth a) : ∃ b, p b ∧ depth b = k := by
  obtain ⟨b, hb, path⟩ := h.exists_path hk
  have hstart : ∀ {c n}, Path r b c n → p c → p b := by
    intro c n path hc
    induction path with
    | nil => exact hc
    | snoc path edge ih => exact ih (hp _ _ edge)
  exact ⟨b, hstart path ha, hb⟩

theorem Tight.lt_of_transGen (h : Tight r depth) (path : Relation.TransGen r a b) :
    depth a < depth b := by
  induction path with
  | single edge => exact h.above _ _ edge
  | tail path edge ih => exact ih.trans (h.above _ _ edge)

/-! ## Depths from predecessors -/

section

variable (f : α → Nat) (as : List α) (d : Nat)

/-- A running maximum is above its start and everything it has seen. -/
theorem le_foldl_max : d ≤ as.foldl (fun d a => max d (f a)) d ∧
    ∀ a ∈ as, f a ≤ as.foldl (fun d a => max d (f a)) d := by
  induction as generalizing d with
  | nil => simp
  | cons b as ih =>
    obtain ⟨hstart, hmem⟩ := ih (max d (f b))
    refine ⟨(le_max_left _ _).trans hstart, fun a ha => ?_⟩
    rcases List.mem_cons.mp ha with rfl | ha
    · exact (le_max_right _ _).trans hstart
    · exact hmem a ha

/-- A running maximum is one of the values it has seen. -/
theorem foldl_max_eq : as.foldl (fun d a => max d (f a)) d = d ∨
    ∃ a ∈ as, as.foldl (fun d a => max d (f a)) d = f a := by
  induction as generalizing d with
  | nil => exact .inl rfl
  | cons b as ih =>
    rcases ih (max d (f b)) with heq | ⟨a, ha, heq⟩
    · rcases max_choice d (f b) with hmax | hmax
      · exact .inl (heq.trans hmax)
      · exact .inr ⟨b, List.mem_cons_self, heq.trans hmax⟩
    · exact .inr ⟨a, List.mem_cons_of_mem b ha, heq⟩

end

/-- One above the deepest element of the list. -/
def deepest (depth : α → Nat) (as : List α) : Nat := as.foldl (fun d a => max d (depth a + 1)) 0

/-- **A depth computed from the predecessors is tight.** -/
theorem tight_of_deepest (preds : α → List α) (hpreds : ∀ a b, r a b ↔ a ∈ preds b)
    (h : ∀ a, depth a = deepest depth (preds a)) : Tight r depth := by
  refine ⟨fun a b edge => ?_, fun b => ?_⟩
  · rw [h b]
    exact (le_foldl_max (fun a => depth a + 1) (preds b) 0).2 a ((hpreds a b).mp edge)
  · rcases foldl_max_eq (fun a => depth a + 1) (preds b) 0 with hzero | ⟨a, ha, heq⟩
    · exact .inl ((h b).trans hzero)
    · exact .inr ⟨a, (hpreds a b).mpr ha, (h b).trans heq⟩

end Layering
