import Shigoto.Graph.Search

/-!
# The convergence harness

`assert_convergent_fsm` checks a state machine that is given by a list of states and their successors.
Each check walks the list and reports the states, or edges, that violate it; the last one searches for a
good resting state from every state. The verdict is the conjunction of the five properties, and the
report names each violation (`assertConvergentFsm_correct`).
-/

namespace Shigoto

open Search

/-- A lifecycle whose convergence can be checked. `debug` is the `{:?}` rendering of a state. -/
class ConvergentFsm (σ : Type) where
  all : List σ
  successors : σ → List σ
  isTerminal : σ → Bool
  isGoodTerminal : σ → Bool
  isGoodRestingState : σ → Bool := isGoodTerminal
  debug : σ → String

inductive DefectKind
  | emptyStateSpace
  | danglingEdge
  | terminalMismatch
  | badTerminalSink
  | deadEndTrap
  | cannotConverge
  deriving DecidableEq, Repr

structure FsmDefect where
  kind : DefectKind
  message : String
  deriving DecidableEq, Repr

/-- `{:?}` of a kind. -/
def DefectKind.debug : DefectKind → String
  | .emptyStateSpace => "EmptyStateSpace"
  | .danglingEdge => "DanglingEdge"
  | .terminalMismatch => "TerminalMismatch"
  | .badTerminalSink => "BadTerminalSink"
  | .deadEndTrap => "DeadEndTrap"
  | .cannotConverge => "CannotConverge"

def FsmDefect.display (defect : FsmDefect) : String :=
  "[" ++ defect.kind.debug ++ "] " ++ defect.message

namespace ConvergentFsm

section

variable (σ : Type) [ConvergentFsm σ]

/-! ## The defects -/

def emptyStateSpace : FsmDefect :=
  ⟨.emptyStateSpace, "all() enumerated zero states — every convergence proof below would range over " ++
    "an empty set and report success having examined nothing"⟩

variable {σ}

def danglingEdge (s succ : σ) : FsmDefect :=
  ⟨.danglingEdge, debug s ++ " → " ++ debug succ ++ " references a state not in all()"⟩

def terminalMismatch (s : σ) : FsmDefect :=
  ⟨.terminalMismatch, debug s ++ ": is_terminal()=" ++ toString (isTerminal s) ++
    " but successors().is_empty()=" ++ toString (successors s).isEmpty⟩

def badTerminalSink (s : σ) : FsmDefect :=
  ⟨.badTerminalSink, debug s ++ " is a terminal but not a good terminal — a failure sink with no exit"⟩

def deadEndTrap (s : σ) : FsmDefect :=
  ⟨.deadEndTrap, debug s ++ " is non-terminal but has no successors — a dead-end trap"⟩

def cannotConverge (s : σ) : FsmDefect :=
  ⟨.cannotConverge, debug s ++ " cannot reach any good resting state — stuck state"⟩

end

section

variable (σ : Type) [ConvergentFsm σ] [DecidableEq σ]

/-! ## The checks -/

def checkStateSpaceNonEmpty : List FsmDefect :=
  if (all : List σ).isEmpty then [emptyStateSpace] else []

/-- Every edge leads to a member of `all`. -/
def checkGraphClosed : List FsmDefect :=
  (all : List σ).foldl (fun defects s =>
    (successors s).foldl (fun defects succ =>
      if succ ∈ (all : List σ) then defects else defects ++ [danglingEdge s succ]) defects)
    (checkStateSpaceNonEmpty σ)

def checkTerminalsSound : List FsmDefect :=
  (all : List σ).foldl (fun defects s =>
    let noSucc := (successors s).isEmpty
    let defects := if isTerminal s ≠ noSucc then defects ++ [terminalMismatch s] else defects
    if isTerminal s && !isGoodTerminal s then defects ++ [badTerminalSink s] else defects)
    (checkStateSpaceNonEmpty σ)

def checkNoTraps : List FsmDefect :=
  (all : List σ).foldl (fun defects s =>
    if !isTerminal s && (successors s).isEmpty then defects ++ [deadEndTrap s] else defects)
    (checkStateSpaceNonEmpty σ)

/-- Does a good resting state lie on some path out of `start`? -/
def reachesGoodTerminal [Fintype σ] (start : σ) : Bool :=
  search successors isGoodRestingState ∅ [start]

def checkAllConverge [Fintype σ] : List FsmDefect :=
  (all : List σ).foldl (fun defects start =>
    if reachesGoodTerminal σ start then defects else defects ++ [cannotConverge start])
    (checkStateSpaceNonEmpty σ)

/-- The text of a failed proof: every defect on a line of its own. -/
def report (defects : List FsmDefect) : String :=
  defects.foldl (fun msg d => msg ++ "\n  - " ++ d.display)
    ("FSM convergence proof failed with " ++ toString defects.length ++ " defect(s):")

/-- All defects. An empty state space is reported alone. -/
def defects [Fintype σ] : List FsmDefect :=
  let defects := checkStateSpaceNonEmpty σ
  if defects.isEmpty then
    defects ++ checkGraphClosed σ ++ checkTerminalsSound σ ++ checkNoTraps σ ++ checkAllConverge σ
  else defects

def assertConvergentFsm [Fintype σ] : Except String Unit :=
  if (defects σ).isEmpty then .ok () else .error (report (defects σ))

end

/-! ## The checks as lists of violations -/

/-- A loop that only appends collects what it appends. -/
theorem foldl_append {α β : Type} {step : List β → α → List β} {f : α → List β}
    (h : ∀ acc a, step acc a = acc ++ f a) (as : List α) (acc : List β) :
    as.foldl step acc = acc ++ as.flatMap f := by
  induction as generalizing acc with
  | nil => simp
  | cons a as ih => rw [List.foldl_cons, ih, h, List.flatMap_cons, List.append_assoc]

theorem flatMap_ite {α β : Type} (p : α → Bool) (f : α → β) (as : List α) :
    (as.flatMap fun a => if p a then [f a] else []) = (as.filter p).map f := by
  induction as with
  | nil => rfl
  | cons a as ih =>
    rw [List.flatMap_cons, ih, List.filter_cons]
    split <;> rfl

section

variable {σ : Type} [ConvergentFsm σ]

theorem checkStateSpaceNonEmpty_of_ne_nil (h : (all : List σ) ≠ []) : checkStateSpaceNonEmpty σ = [] := by
  rw [checkStateSpaceNonEmpty, if_neg (by simpa using h)]

/-- What the two terminal checks say of one state. -/
def terminalDefects (s : σ) : List FsmDefect :=
  (if isTerminal s ≠ (successors s).isEmpty then [terminalMismatch s] else []) ++
    if isTerminal s && !isGoodTerminal s then [badTerminalSink s] else []

theorem checkTerminalsSound_eq : checkTerminalsSound σ =
    checkStateSpaceNonEmpty σ ++ (all : List σ).flatMap terminalDefects := by
  refine foldl_append (fun acc s => ?_) _ _
  dsimp only [terminalDefects]
  split <;> split <;> simp

theorem checkNoTraps_eq : checkNoTraps σ = checkStateSpaceNonEmpty σ ++
    ((all : List σ).filter fun s => !isTerminal s && (successors s).isEmpty).map deadEndTrap := by
  rw [← flatMap_ite]
  refine foldl_append (fun acc s => ?_) _ _
  split <;> simp

/-- The two sides of the first terminal check, in the words of the trait. -/
theorem terminal_ne_iff (s : σ) :
    isTerminal s ≠ (successors s).isEmpty ↔ ¬ (isTerminal s = true ↔ successors s = []) := by
  rw [ne_eq, Bool.eq_iff_iff, List.isEmpty_iff]

/-- The defects of one kind. -/
def ofKind (kind : DefectKind) (defects : List FsmDefect) : List FsmDefect :=
  defects.filter fun defect => defect.kind = kind

theorem ofKind_append (kind : DefectKind) (ds ds' : List FsmDefect) :
    ofKind kind (ds ++ ds') = ofKind kind ds ++ ofKind kind ds' := List.filter_append ..

/-- All defects of one check have its kind. -/
theorem ofKind_map {α : Type} {own : DefectKind} {f : α → FsmDefect} (h : ∀ a, (f a).kind = own)
    (kind : DefectKind) (as : List α) : ofKind kind (as.map f) = if own = kind then as.map f else [] := by
  rw [ofKind, List.filter_map]
  have hconst : (fun d : FsmDefect => decide (d.kind = kind)) ∘ f = fun _ => decide (own = kind) :=
    funext fun a => by rw [Function.comp_apply, h]
  rw [hconst]
  split <;> simp_all

theorem ofKind_mismatches : ofKind .terminalMismatch ((all : List σ).flatMap terminalDefects) =
    ((all : List σ).filter fun s => ¬ (isTerminal s = true ↔ successors s = [])).map terminalMismatch := by
  rw [ofKind, List.filter_flatMap, ← flatMap_ite]
  refine List.flatMap_congr fun s _ => ?_
  simp only [decide_eq_true_iff, ← terminal_ne_iff, terminalDefects]
  split <;> split <;> simp [terminalMismatch, badTerminalSink]

theorem ofKind_sinks : ofKind .badTerminalSink ((all : List σ).flatMap terminalDefects) =
    ((all : List σ).filter fun s => isTerminal s && !isGoodTerminal s).map badTerminalSink := by
  rw [ofKind, List.filter_flatMap, ← flatMap_ite]
  refine List.flatMap_congr fun s _ => ?_
  simp only [terminalDefects]
  split <;> split <;> simp [terminalMismatch, badTerminalSink]

theorem ofKind_others {kind : DefectKind} (hmismatch : kind ≠ .terminalMismatch)
    (hsink : kind ≠ .badTerminalSink) : ofKind kind ((all : List σ).flatMap terminalDefects) = [] := by
  rw [ofKind, List.filter_flatMap]
  refine List.flatMap_eq_nil_iff.mpr fun s _ => ?_
  simp only [terminalDefects]
  split <;> split <;> simp [terminalMismatch, badTerminalSink, hmismatch.symm, hsink.symm]

variable (σ) in
/-- A state machine that is well formed and from everywhere reaches a good resting state. -/
structure Convergent : Prop where
  nonempty : (all : List σ) ≠ []
  closed : ∀ s ∈ (all : List σ), ∀ succ ∈ successors s, succ ∈ (all : List σ)
  terminals : ∀ s ∈ (all : List σ), isTerminal s = true ↔ successors s = []
  good : ∀ s ∈ (all : List σ), isTerminal s = true → isGoodTerminal s = true
  converges : ∀ s ∈ (all : List σ), Reaches successors isGoodRestingState s

variable [DecidableEq σ]

variable (σ) in
/-- The edges that leave the state space. -/
def openEdges : List (σ × σ) :=
  (all : List σ).flatMap fun s =>
    ((successors s).filter fun succ => succ ∉ (all : List σ)).map fun succ => (s, succ)

theorem checkGraphClosed_eq : checkGraphClosed σ = checkStateSpaceNonEmpty σ ++
    (openEdges σ).map fun e => danglingEdge e.1 e.2 := by
  rw [openEdges, List.map_flatMap]
  refine foldl_append (fun acc s => ?_) _ _
  rw [List.map_map, ← flatMap_ite]
  refine foldl_append (fun acc succ => ?_) _ _
  split <;> simp_all

/-! ## The verdict -/

variable [Fintype σ]

theorem checkAllConverge_eq : checkAllConverge σ = checkStateSpaceNonEmpty σ ++
    ((all : List σ).filter fun s => ¬ Reaches successors isGoodRestingState s).map cannotConverge := by
  rw [← flatMap_ite]
  refine foldl_append (fun acc s => ?_) _ _
  have hreach : reachesGoodTerminal σ s = decide (Reaches successors isGoodRestingState s) := by
    rw [Bool.eq_iff_iff, decide_eq_true_iff]
    exact search_singleton_iff _ _ s
  rw [hreach]
  by_cases h : Reaches successors isGoodRestingState s <;> simp [h]

/-- What the harness collects over a non-empty list of states. -/
theorem defects_eq (h : (all : List σ) ≠ []) :
    defects σ = checkGraphClosed σ ++ checkTerminalsSound σ ++ checkNoTraps σ ++ checkAllConverge σ := by
  simp only [defects, checkStateSpaceNonEmpty_of_ne_nil h, List.isEmpty_nil, if_true, List.nil_append]

variable (σ) in
/-- Each violating state, and each violating edge, has a defect of its own. -/
structure Reported (defects : List FsmDefect) : Prop where
  edges : ofKind .danglingEdge defects = (openEdges σ).map fun e => danglingEdge e.1 e.2
  mismatches : ofKind .terminalMismatch defects =
    ((all : List σ).filter fun s => ¬ (isTerminal s = true ↔ successors s = [])).map terminalMismatch
  sinks : ofKind .badTerminalSink defects =
    ((all : List σ).filter fun s => isTerminal s && !isGoodTerminal s).map badTerminalSink
  traps : ofKind .deadEndTrap defects =
    ((all : List σ).filter fun s => !isTerminal s && (successors s).isEmpty).map deadEndTrap
  stuck : ofKind .cannotConverge defects =
    ((all : List σ).filter fun s => ¬ Reaches successors isGoodRestingState s).map cannotConverge

theorem reported (h : (all : List σ) ≠ []) : Reported σ (defects σ) := by
  rw [defects_eq h, checkGraphClosed_eq, checkTerminalsSound_eq, checkNoTraps_eq, checkAllConverge_eq,
    checkStateSpaceNonEmpty_of_ne_nil h]
  have hedges := ofKind_map (f := fun e : σ × σ => danglingEdge e.1 e.2)
    (fun _ => (rfl : _ = DefectKind.danglingEdge))
  have htraps := ofKind_map (f := (deadEndTrap : σ → FsmDefect))
    (fun _ => (rfl : _ = DefectKind.deadEndTrap))
  have hstuck := ofKind_map (f := (cannotConverge : σ → FsmDefect))
    (fun _ => (rfl : _ = DefectKind.cannotConverge))
  constructor <;> simp [ofKind_append, hedges, htraps, hstuck, ofKind_mismatches, ofKind_sinks,
    ofKind_others]

/-- Nothing is reported exactly when nothing is violated. -/
theorem defects_eq_nil_iff (h : (all : List σ) ≠ []) : defects σ = [] ↔ Convergent σ := by
  have hclosed : openEdges σ = [] ↔
      ∀ s ∈ (all : List σ), ∀ succ ∈ successors s, succ ∈ (all : List σ) := by
    simp [openEdges]
  have hterminals : (all : List σ).flatMap terminalDefects = [] ↔ ∀ s ∈ (all : List σ),
      (isTerminal s = true ↔ successors s = []) ∧ (isTerminal s = true → isGoodTerminal s = true) := by
    rw [List.flatMap_eq_nil_iff]
    refine forall₂_congr fun s _ => ?_
    rw [terminalDefects, List.append_eq_nil_iff, ← not_not (a := isTerminal s = true ↔ _),
      ← terminal_ne_iff]
    simp
  rw [defects_eq h, checkGraphClosed_eq, checkTerminalsSound_eq, checkNoTraps_eq, checkAllConverge_eq,
    checkStateSpaceNonEmpty_of_ne_nil h]
  simp only [List.nil_append, List.append_eq_nil_iff, List.map_eq_nil_iff, List.filter_eq_nil_iff,
    hclosed, hterminals, decide_eq_true_iff, not_not]
  constructor
  · rintro ⟨⟨⟨hedges, hends⟩, -⟩, hconverges⟩
    exact ⟨h, hedges, fun s hs => (hends s hs).1, fun s hs => (hends s hs).2, hconverges⟩
  · intro hconv
    refine ⟨⟨⟨hconv.closed, fun s hs => ⟨hconv.terminals s hs, hconv.good s hs⟩⟩, fun s hs => ?_⟩,
      hconv.converges⟩
    have := hconv.terminals s hs
    grind

theorem defects_ne_nil (h : (all : List σ) = []) : defects σ ≠ [] := by
  simp [defects, checkStateSpaceNonEmpty, h]

end

end ConvergentFsm

end Shigoto
