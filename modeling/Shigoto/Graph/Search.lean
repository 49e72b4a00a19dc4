import Mathlib.Data.Finset.BooleanAlgebra
import Mathlib.Data.Fintype.Card
import Mathlib.Logic.Relation

/-!
# Searching a finite graph

A worklist search over a graph given by its successor lists. It ends because every round either marks a
new element or takes one off the stack, and it answers whether some marked path leads to a goal
(`search_iff`): what it has marked holds no goal, and leads nowhere but to marked elements and the stack
(`Explored`).
-/

namespace Search

open Relation

variable {α : Type} {next : α → List α} {goal : α → Bool}

/-- `b` is a successor of `a`. -/
def Edge (next : α → List α) (a b : α) : Prop := b ∈ next a

/-- Some path from `a` leads to a goal. -/
def Reaches (next : α → List α) (goal : α → Bool) (a : α) : Prop :=
  ∃ b, ReflTransGen (Edge next) a b ∧ goal b = true

theorem Reaches.here {a : α} (h : goal a = true) : Reaches next goal a := ⟨a, .refl, h⟩

theorem Reaches.head {a b : α} (h : Reaches next goal b) (edge : b ∈ next a) : Reaches next goal a := by
  obtain ⟨c, path, hc⟩ := h
  exact ⟨c, .head edge path, hc⟩

/-- A goal is reached at once or through a successor. -/
theorem Reaches.cases {a : α} (h : Reaches next goal a) :
    goal a = true ∨ ∃ b ∈ next a, Reaches next goal b := by
  obtain ⟨c, path, hc⟩ := h
  rcases path.cases_head with rfl | ⟨b, edge, path⟩
  · exact .inl hc
  · exact .inr ⟨b, edge, c, path, hc⟩

/-- What is marked holds no goal, and leads to what is marked or still on the stack. -/
structure Explored [DecidableEq α] (next : α → List α) (goal : α → Bool) (seen : Finset α)
    (stack : List α) : Prop where
  goalless : ∀ a ∈ seen, goal a = false
  closed : ∀ a ∈ seen, ∀ b ∈ next a, b ∈ seen ∨ b ∈ stack

/-- From what is marked, a goal is reached only through the stack. -/
theorem Explored.through [DecidableEq α] {seen : Finset α} {stack : List α}
    (h : Explored next goal seen stack) {a : α} (ha : a ∈ seen) (hreach : Reaches next goal a) :
    ∃ b ∈ stack, Reaches next goal b := by
  obtain ⟨c, path, hc⟩ := hreach
  induction path using ReflTransGen.head_induction_on with
  | refl =>
    rw [h.goalless c ha] at hc
    exact Bool.noConfusion hc
  | head edge path ih =>
    rcases h.closed _ ha _ edge with hseen | hstack
    · exact ih hseen
    · exact ⟨_, hstack, c, path, hc⟩

variable [DecidableEq α]

/-- Take elements off the stack, mark them and push their successors, until one is a goal. -/
def search [Fintype α] (next : α → List α) (goal : α → Bool) (seen : Finset α) (stack : List α) :
    Bool :=
  match stack with
  | [] => false
  | a :: stack =>
    if a ∈ seen then search next goal seen stack
    else if goal a then true
    else search next goal (insert a seen) ((next a).reverse ++ stack)
termination_by (seenᶜ.card, stack.length)
decreasing_by
  · exact Prod.Lex.right _ (Nat.lt_succ_self _)
  · next hnew _ =>
    refine Prod.Lex.left _ _ (Finset.card_lt_card ?_)
    rw [Finset.compl_insert]
    exact Finset.erase_ssubset (Finset.mem_compl.mpr hnew)

variable [Fintype α]

/-- **The search answers whether a goal is reached from the stack.** -/
theorem search_iff {seen : Finset α} {stack : List α} (h : Explored next goal seen stack) :
    search next goal seen stack = true ↔ ∃ a ∈ stack, Reaches next goal a := by
  fun_induction search next goal seen stack with
  | case1 seen => simp
  | case2 seen a stack hseen ih =>
    have hdrop : Explored next goal seen stack := by
      refine ⟨h.goalless, fun b hb c edge => ?_⟩
      have := h.closed b hb c edge
      grind
    rw [ih hdrop, List.exists_mem_cons_iff, iff_or_self]
    exact hdrop.through hseen
  | case3 seen a stack hnew hgoal => simpa using .inl (.here hgoal)
  | case4 seen a stack hnew hgoal ih =>
    have hpush : Explored next goal (insert a seen) ((next a).reverse ++ stack) := by
      refine ⟨fun b hb => ?_, fun b hb c edge => ?_⟩
      · have := h.goalless b
        grind
      · have := h.closed b
        grind
    rw [ih hpush]
    constructor
    · rintro ⟨b, hb, hreach⟩
      rcases List.mem_append.mp hb with hb | hb
      · exact ⟨a, List.mem_cons_self, hreach.head (List.mem_reverse.mp hb)⟩
      · exact ⟨b, List.mem_cons_of_mem a hb, hreach⟩
    · rintro ⟨b, hb, hreach⟩
      rcases List.mem_cons.mp hb with rfl | hb
      · rcases hreach.cases with hb | ⟨c, edge, hreach⟩
        · exact absurd hb hgoal
        · exact ⟨c, List.mem_append_left _ (List.mem_reverse.mpr edge), hreach⟩
      · exact ⟨b, List.mem_append_right _ hb, hreach⟩

/-- From a single start. -/
theorem search_singleton_iff (next : α → List α) (goal : α → Bool) (a : α) :
    search next goal ∅ [a] = true ↔ Reaches next goal a := by
  rw [search_iff ⟨by simp, by simp⟩]
  simp

instance (next : α → List α) (goal : α → Bool) : DecidablePred (Reaches next goal) :=
  fun a => decidable_of_iff _ (search_singleton_iff next goal a)

end Search
