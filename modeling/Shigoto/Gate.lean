import Shigoto.Dag

/-!
# Gates

A gate looks at a job, a copy of the phase map and the graph. Its verdicts are reduced to one
`GateAggregate`, worst outcome first. The implicit gate `AllUpstreamsTerminal` is always in the
cohort, so an aggregate that lets a job pass says that all its direct predecessors are terminal.
-/

namespace Shigoto

/-- One gate's verdict. -/
inductive GateOutcome
  | pass
  | vacuous
  | wait
  | skip (reason : SkipReason)
  deriving DecidableEq, Repr

structure GateContext where
  jobId : JobId
  snapshot : Snapshot
  dag : Dag

/-- A registered gate. It may be a closure over anything, so its verdict may depend on the moment
at which it is asked. -/
structure Gate where
  evaluate : Nat → GateContext → GateOutcome

/-- The verdict depends on what the gate is shown only. -/
def Gate.Pure (gate : Gate) : Prop :=
  ∀ time time' ctx, gate.evaluate time ctx = gate.evaluate time' ctx

/-- A verdict that keeps the job from becoming Ready. -/
def GateOutcome.blocking : GateOutcome → Bool
  | .wait | .skip _ => true
  | .pass | .vacuous => false

/-! ## Reducing a cohort -/

/-- The loop of `reduce` with its two accumulators. -/
def reduceFrom (anyWait : Bool) (passed : Nat) : List GateOutcome → GateAggregate
  | [] =>
    if anyWait then .someWaiting
    else if gates : passed ≠ 0 then .allPassed ⟨passed, gates⟩
    else .vacuous
  | .skip reason :: _ => .skipped reason
  | .wait :: outcomes => reduceFrom true passed outcomes
  | .pass :: outcomes => reduceFrom anyWait (passed + 1) outcomes
  | .vacuous :: outcomes => reduceFrom anyWait passed outcomes

/-- Reduce a cohort of verdicts to one aggregate: a skip wins, then a wait. -/
def reduce (outcomes : List GateOutcome) : GateAggregate := reduceFrom false 0 outcomes

private theorem reduceFrom_phase_ready_iff (outcomes : List GateOutcome) (anyWait : Bool)
    (passed : Nat) :
    (reduceFrom anyWait passed outcomes).phase = .ready ↔
      anyWait = false ∧ ∀ o ∈ outcomes, o.blocking = false := by
  induction outcomes generalizing anyWait passed with
  | nil =>
    cases anyWait with
    | true => simp [reduceFrom, GateAggregate.phase]
    | false =>
      by_cases hpassed : passed = 0
      · simp [reduceFrom, GateAggregate.phase, hpassed]
      · simp [reduceFrom, GateAggregate.phase, hpassed]
  | cons o outcomes ih =>
    cases o with
    | skip reason => simp [reduceFrom, GateAggregate.phase, GateOutcome.blocking]
    | wait => simp [reduceFrom, ih, GateOutcome.blocking]
    | pass => simp [reduceFrom, ih, GateOutcome.blocking]
    | vacuous => simp [reduceFrom, ih, GateOutcome.blocking]

/-- A cohort lets its job through exactly when no verdict in it is blocking. -/
theorem reduce_phase_ready_iff {outcomes : List GateOutcome} :
    (reduce outcomes).phase = .ready ↔ ∀ o ∈ outcomes, o.blocking = false := by
  rw [reduce, reduceFrom_phase_ready_iff]
  exact and_iff_right rfl

/-- The cohort lets its job through. -/
def GateAggregate.Passes (aggregate : GateAggregate) : Prop :=
  (∃ gates, aggregate = .allPassed gates) ∨ aggregate = .vacuous

theorem GateAggregate.phase_eq_ready_iff {aggregate : GateAggregate} :
    aggregate.phase = .ready ↔ aggregate.Passes := by
  cases aggregate <;> simp [GateAggregate.phase, GateAggregate.Passes]

instance (aggregate : GateAggregate) : Decidable aggregate.Passes :=
  decidable_of_iff _ GateAggregate.phase_eq_ready_iff

/-! ## The implicit gate -/

namespace AllUpstreamsTerminal

/-- The loop over the predecessors, counting those examined. -/
def examine (snapshot : Snapshot) : Nat → List JobId → GateOutcome
  | examined, [] => if examined = 0 then .vacuous else .pass
  | examined, pred :: preds =>
    if (phaseIn snapshot.phases pred).isTerminal then examine snapshot (examined + 1) preds
    else .wait

/-- Every direct predecessor has reached a terminal phase. -/
def evaluate (ctx : GateContext) : GateOutcome :=
  examine ctx.snapshot 0 (ctx.dag.predecessors ctx.jobId)

private theorem examine_blocking_iff (snapshot : Snapshot) (preds : List JobId) (examined : Nat) :
    (examine snapshot examined preds).blocking = false ↔
      ∀ pred ∈ preds, (phaseIn snapshot.phases pred).isTerminal = true := by
  induction preds generalizing examined with
  | nil =>
    by_cases hexamined : examined = 0
    · simp [examine, GateOutcome.blocking, hexamined]
    · simp [examine, GateOutcome.blocking, hexamined]
  | cons pred preds ih =>
    by_cases hpred : (phaseIn snapshot.phases pred).isTerminal = true
    · simp [examine, hpred, ih]
    · simp [examine, hpred, GateOutcome.blocking]

theorem evaluate_blocking_iff {ctx : GateContext} :
    (evaluate ctx).blocking = false ↔ ∀ pred ∈ ctx.dag.predecessors ctx.jobId,
      (phaseIn ctx.snapshot.phases pred).isTerminal = true :=
  examine_blocking_iff ctx.snapshot _ 0

private theorem examine_eq_wait {snapshot : Snapshot} {preds : List JobId} (examined : Nat)
    (h : ¬ ∀ pred ∈ preds, (phaseIn snapshot.phases pred).isTerminal = true) :
    examine snapshot examined preds = .wait := by
  induction preds generalizing examined with
  | nil => exact absurd (fun pred hpred => absurd hpred List.not_mem_nil) h
  | cons pred preds ih =>
    rw [List.forall_mem_cons, not_and] at h
    by_cases hpred : (phaseIn snapshot.phases pred).isTerminal = true
    · rw [examine, if_pos hpred]
      exact ih (examined + 1) (h hpred)
    · rw [examine, if_neg hpred]

theorem evaluate_eq_wait {ctx : GateContext} (h : ¬ ∀ pred ∈ ctx.dag.predecessors ctx.jobId,
    (phaseIn ctx.snapshot.phases pred).isTerminal = true) : evaluate ctx = .wait := examine_eq_wait 0 h

end AllUpstreamsTerminal

/-- The aggregate of a whole cohort, given the verdicts of the registered gates. -/
def cohortAggregate (ctx : GateContext) (outcomes : List GateOutcome) : GateAggregate :=
  reduce (AllUpstreamsTerminal.evaluate ctx :: outcomes)

/-- **No registered gate can outvote the graph**: a cohort lets its job through only if every direct
predecessor is terminal. -/
theorem cohortAggregate_ready_iff {ctx : GateContext} {outcomes : List GateOutcome} :
    (cohortAggregate ctx outcomes).phase = .ready ↔
      (∀ pred ∈ ctx.dag.predecessors ctx.jobId,
        (phaseIn ctx.snapshot.phases pred).isTerminal = true) ∧
      ∀ o ∈ outcomes, o.blocking = false := by
  rw [cohortAggregate, reduce_phase_ready_iff, List.forall_mem_cons,
    AllUpstreamsTerminal.evaluate_blocking_iff]

/-- Without registered gates a job waits for its predecessors, and for nothing else. -/
theorem cohortAggregate_eq_someWaiting {ctx : GateContext}
    (h : ¬ ∀ pred ∈ ctx.dag.predecessors ctx.jobId,
    (phaseIn ctx.snapshot.phases pred).isTerminal = true) : cohortAggregate ctx [] = .someWaiting := by
  rw [cohortAggregate, AllUpstreamsTerminal.evaluate_eq_wait h]
  rfl

end Shigoto
