import Shigoto.Scheduler.Passes

/-!
# A scheduler without gates and policies

Without registered gates and retry policies, what happens to a job that is driven depends on two things
only: whether all its predecessors are terminal, and whether the budget has a slot for it. `settle`
lists the phases that the job goes through, and `wp_drive_plain` says that it goes through these.
-/

namespace Shigoto

open Atomic

variable {w : World} {m m' : SchedMachine} {id : JobId} {dag : Dag}

/-- No gates and no retry policies are registered. -/
structure SchedulerState.Plain (state : SchedulerState) : Prop where
  gates : ∀ kind, (state.gates.get? kind).getD [] = []
  retryPolicies : ∀ kind, (state.retryPolicies.get? kind).getD .noRetry = .noRetry

theorem SchedulerState.SameSetup.plain {state state' : SchedulerState} (h : state.SameSetup state')
    (hplain : state.Plain) : state'.Plain :=
  ⟨h.gates ▸ hplain.gates, h.retryPolicies ▸ hplain.retryPolicies⟩

/-- Every execution of a registered job ends as `outcome` says. -/
def SchedulerState.Ends (state : SchedulerState) (outcome : JobId → ExecResult) : Prop :=
  ∀ id job, state.jobs.get? id = some job →
    ∀ time, (job.execute time).within (state.timeouts.get? id) = some (outcome id)

/-- How the execution of a job ends; that of a job which is not registered fails. -/
def SchedulerState.verdict (state : SchedulerState) (outcome : JobId → ExecResult) (id : JobId) :
    ExecResult :=
  if (state.jobs.get? id).isSome then outcome id else .error ()

/-- The tasks of every job yield its verdict. -/
def SchedulerState.Yields (state : SchedulerState) (verdict : JobId → ExecResult) : Prop :=
  ∀ id time, (state.taskOf id time).result = some (verdict id)

theorem SchedulerState.Ends.yields {state : SchedulerState} {outcome : JobId → ExecResult}
    (h : state.Ends outcome) : state.Yields (state.verdict outcome) := by
  intro id time
  unfold taskOf verdict
  cases hget : state.jobs.get? id with
  | none => rfl
  | some job => exact h id job hget time

theorem SchedulerState.SameSetup.yields {state state' : SchedulerState} {verdict : JobId → ExecResult}
    (h : state.SameSetup state') (hyields : state.Yields verdict) : state'.Yields verdict := by
  intro id time
  rw [h.taskOf]
  exact hyields id time

/-- An executed job is where its verdict leads. -/
theorem Executed.phase_of_yields {ids : List JobId} {tasks : List Task} {m m' : SchedMachine}
    {verdict : JobId → ExecResult} (h : Executed w ids tasks m m')
    (hyields : m.state.state.Yields verdict) {id : JobId} (hid : id ∈ ids) :
    m'.state.phase id = ExecResult.phase (verdict id) := by
  obtain ⟨task, htask, rfl⟩ := List.mem_map.mp (h.ran.map_id.symm ▸ hid)
  obtain ⟨time, htime⟩ := h.ran.of_mem htask
  have hresult : task.result = some (verdict task.id) := by
    rw [htime, SchedulerState.taskOf_id]
    exact hyields task.id time
  rw [h.moved task htask, Task.phase, hresult]
  rfl

/-- Where a job ends up without retries. -/
def ExecResult.final : ExecResult → JobPhase
  | .ok _ => .succeeded
  | .error _ => .deadlettered

theorem ExecResult.isTerminal_final (result : ExecResult) :
    (ExecResult.final result).isTerminal = true := by
  cases result <;> rfl

/-- Every direct predecessor of the job is terminal. -/
def Supported (dag : Dag) (s : InProcessScheduler) (id : JobId) : Prop :=
  ∀ pred ∈ dag.predecessors id, (s.phase pred).isTerminal = true

instance (s : InProcessScheduler) : Decidable (Supported dag s id) :=
  inferInstanceAs (Decidable (∀ pred ∈ dag.predecessors id, (s.phase pred).isTerminal = true))

/-! ## The phases a driven job goes through -/

/-- The next phase of a job, if it goes on: `supported` stands for its predecessors, `slack` for the
budget. -/
def plainStep (supported slack : Bool) : JobPhase → Option JobPhase
  | .pending => some (if supported then .ready else .gated)
  | .gated => if supported then some .ready else none
  | .ready => if slack then some .running else none
  | .failed _ => some .deadlettered
  | _ => none

/-- The phases that a job goes through in at most so many steps. -/
def settle (supported slack : Bool) : Nat → JobPhase → List JobPhase
  | 0, _ => []
  | bound + 1, phase =>
    match plainStep supported slack phase with
    | some next => next :: settle supported slack bound next
    | none => []

theorem settle_of_stuck {supported slack : Bool} {phase : JobPhase}
    (h : plainStep supported slack phase = none) (bound : Nat) :
    settle supported slack bound phase = [] := by
  cases bound with
  | zero => rfl
  | succ bound => rw [settle, h]

/-- The moves along a path. -/
def pathSteps : JobPhase → List JobPhase → List (JobPhase × JobPhase)
  | _, [] => []
  | phase, next :: path => (phase, next) :: pathSteps next path

theorem getLastD_append (phase : JobPhase) (path path' : List JobPhase) :
    (path ++ path').getLastD phase = path'.getLastD (path.getLastD phase) := by
  induction path generalizing phase with
  | nil => rfl
  | cons next path ih => rw [List.cons_append, List.getLastD_cons, List.getLastD_cons, ih]

theorem pathSteps_append (phase : JobPhase) (path path' : List JobPhase) :
    pathSteps phase (path ++ path') = pathSteps phase path ++ pathSteps (path.getLastD phase) path' := by
  induction path generalizing phase with
  | nil => rfl
  | cons next path ih =>
    rw [List.cons_append, pathSteps, ih, List.getLastD_cons]
    rfl

/-- The moves of `id` along a path. -/
def stepsAlong (id : JobId) (phase : JobPhase) (path : List JobPhase) :
    List (JobId × JobPhase × JobPhase) := (pathSteps phase path).map fun step => (id, step)

/-- The moves of `id` among those of all jobs. -/
def stepsOf (id : JobId) (steps : List (JobId × JobPhase × JobPhase)) : List (JobPhase × JobPhase) :=
  (steps.filter fun step => step.1 = id).map (·.2)

theorem stepsOf_append (steps steps' : List (JobId × JobPhase × JobPhase)) :
    stepsOf id (steps ++ steps') = stepsOf id steps ++ stepsOf id steps' := by
  simp [stepsOf]

theorem stepsOf_stepsAlong (id id' : JobId) (phase : JobPhase) (path : List JobPhase) :
    stepsOf id' (stepsAlong id phase path) = if id' = id then pathSteps phase path else [] := by
  unfold stepsOf stepsAlong
  rw [List.filter_map, List.map_map]
  by_cases hid : id' = id
  · rw [if_pos hid, hid]
    simp [Function.comp_def]
  · rw [if_neg hid, List.filter_eq_nil_iff.mpr fun step _ => by simpa using Ne.symm hid]
    rfl

/-- What a job gets on its way: it moves along the path, and takes a slot if it is started. -/
structure Walked (id : JobId) (path : List JobPhase) (m m' : SchedMachine) : Prop where
  phase : ∀ id', m'.state.phase id' =
    if id' = id then path.getLastD (m.state.phase id) else m.state.phase id'
  budget : m'.state.budget =
    if .running ∈ path then (m.state.budget.tryAllocate id).2 else m.state.budget
  setup : m.state.state.SameSetup m'.state.state

namespace Walked

theorem nil (hphase : ∀ id', m'.state.phase id' = m.state.phase id')
    (hbudget : m'.state.budget = m.state.budget) (hsetup : m.state.state.SameSetup m'.state.state) :
    Walked id [] m m' := by
  refine ⟨fun id' => (hphase id').trans ?_, hbudget, hsetup⟩
  split
  · next hid => rw [hid]; rfl
  · rfl

theorem phase_self {path : List JobPhase} (h : Walked id path m m') :
    m'.state.phase id = path.getLastD (m.state.phase id) := (h.phase id).trans (if_pos rfl)

theorem phase_ne {path : List JobPhase} (h : Walked id path m m') {id' : JobId} (hne : id' ≠ id) :
    m'.state.phase id' = m.state.phase id' := (h.phase id').trans (if_neg hne)

theorem phase_nil (h : Walked id [] m m') (id' : JobId) : m'.state.phase id' = m.state.phase id' := by
  by_cases hid : id' = id
  · rw [hid, h.phase_self]
    rfl
  · exact h.phase_ne hid

/-- A job that is started goes no further. -/
theorem cons {next : JobPhase} {path : List JobPhase} {m₁ m₂ : SchedMachine} (h : Walked id [next] m m₁)
    (h' : Walked id path m₁ m₂) (hlast : next = .running → path = []) :
    Walked id (next :: path) m m₂ := by
  have hnext : m₁.state.phase id = next := h.phase_self
  refine ⟨fun id' => ?_, ?_, h.setup.trans h'.setup⟩
  · by_cases hid : id' = id
    · rw [hid, h'.phase_self, hnext, if_pos rfl]
      exact List.getLastD_cons.symm
    · rw [h'.phase_ne hid, h.phase_ne hid, if_neg hid]
  · by_cases hstarted : next = .running
    · rw [h'.budget, h.budget, hlast hstarted, hstarted]
      rfl
    · have hbefore : m₁.state.budget = m.state.budget :=
        h.budget.trans (if_neg (by simpa using Ne.symm hstarted))
      simp only [h'.budget, hbefore, List.mem_cons, Ne.symm hstarted, false_or]

/-- A signal other than a start. -/
theorem dispatch {m₁ : SchedMachine} {signal : Signal} {target : JobPhase} (h : Walked id [] m m₁)
    (hadvance : advance (m.state.phase id) signal = .ok target) (htarget : target ≠ .running) :
    Walked id [target] m (m₁.step (handle w) 0 (.dispatch id signal)) := by
  have hadvance₁ : advance (m₁.state.phase id) signal = .ok target := (h.phase_nil id).symm ▸ hadvance
  refine ⟨fun id' => ?_, ?_, h.setup.trans (sameSetup_dispatch id signal m₁.state)⟩
  · refine (phase_dispatch_ok w hadvance₁ id').trans ?_
    rw [h.phase_nil]
    rfl
  · rw [if_neg (by simpa using htarget.symm)]
    exact (dispatch_frame w id signal m₁.state).1.trans h.budget

end Walked

/-! ## One step -/

/-- What one step of a job at `phase` leads to, and what it reports. -/
def StepsTo (id : JobId) (transitions : List TransitionEvent) (phase : JobPhase)
    (next : Option JobPhase)
    (m : SchedMachine) (r : Bool × List TransitionEvent) (m' : SchedMachine) : Prop :=
  r.1 = next.isSome ∧ Walked id next.toList m m' ∧
    ∃ new, r.2 = transitions ++ new ∧ new.map TransitionEvent.step = stepsAlong id phase next.toList

/-- A signal that is accepted is a step. -/
theorem wp_sendOn {m₁ : SchedMachine} {signal : Signal} {target : JobPhase}
    (transitions : List TransitionEvent) (h : Walked id [] m m₁)
    (hadvance : advance (m.state.phase id) signal = .ok target) (htarget : target ≠ .running) :
    wp (handle w) 0 (do
        let transitions ← dispatch id signal transitions
        return (true, transitions))
      (StepsTo id transitions (m.state.phase id) (some target) m) (fun _ _ => False) m₁ := by
  have hadvance₁ : advance (m₁.state.phase id) signal = .ok target := (h.phase_nil id).symm ▸ hadvance
  apply wp_bind.mpr
  apply (wp_dispatch hadvance₁).mpr
  refine ⟨rfl, h.dispatch hadvance htarget, _, rfl, ?_⟩
  exact congrArg (fun phase => [(id, phase, target)]) (h.phase_nil id)

theorem wp_evaluateGates_plain (hplain : m.state.state.Plain)
    {Q : GateAggregate → SchedMachine → Prop} {E : SchedulerError → SchedMachine → Prop} :
    wp (handle w) 0 (evaluateGates id dag) Q E m ↔
      Q (cohortAggregate ⟨id, ⟨m.state.state.phases⟩, dag⟩ []) (m.step (handle w) 0 (.readGates id)) := by
  unfold evaluateGates
  have hanswer : (handle w (.readGates id) m.state).1 = ([], ⟨m.state.state.phases⟩) := by
    show ((m.state.state.gates.get? id.kind).getD [], _) = _
    rw [hplain.gates]
  refine wp_perform_bind.trans ?_
  rw [hanswer]
  exact Iff.rfl

/-- Where the gates lead a job that waits for its predecessors only. -/
theorem cohortAggregate_plain (dag : Dag) (s : InProcessScheduler) (id : JobId) :
    (cohortAggregate ⟨id, ⟨s.state.phases⟩, dag⟩ []).phase =
      (if Supported dag s id then JobPhase.ready else .gated) ∧
    (cohortAggregate ⟨id, ⟨s.state.phases⟩, dag⟩ [] = .someWaiting ↔ ¬ Supported dag s id) := by
  by_cases hsupported : Supported dag s id
  · have hready : (cohortAggregate ⟨id, ⟨s.state.phases⟩, dag⟩ []).phase = .ready :=
      cohortAggregate_ready_iff.mpr ⟨hsupported, fun o ho => absurd ho List.not_mem_nil⟩
    refine ⟨hready.trans (if_pos hsupported).symm, iff_of_false (fun hwait => ?_) (not_not.mpr hsupported)⟩
    rw [hwait] at hready
    cases hready
  · have hwait : cohortAggregate ⟨id, ⟨s.state.phases⟩, dag⟩ [] = .someWaiting :=
      cohortAggregate_eq_someWaiting hsupported
    rw [hwait, if_neg hsupported]
    exact ⟨rfl, iff_of_true rfl hsupported⟩

/-- A job that is Ready starts if the budget has a slot for it. -/
theorem wp_advanceOnce_ready (dag : Dag) (transitions : List TransitionEvent)
    (hsource : m.state.phase id = .ready) :
    wp (handle w) 0 (advanceOnce id .ready dag transitions)
      (StepsTo id transitions .ready
        (plainStep (decide (Supported dag m.state id)) (decide (m.state.budget.HasSlack id)) .ready) m)
      (fun _ _ => False) m := by
  apply wp_perform_bind.mpr
  by_cases hslack : m.state.budget.HasSlack id
  · have hok : (handle w (.tryAllocate id) m.state).1 = .ok () :=
      (m.state.budget.tryAllocate_ok_iff id).mpr hslack
    rw [hok]
    set m₁ := m.step (handle w) 0 (.tryAllocate id) with hm₁
    have hadvance : advance (m₁.state.phase id) .allocateBudget = .ok .running :=
      advance_allocateBudget_iff.mpr ⟨hsource, rfl⟩
    apply wp_bind.mpr
    apply (wp_dispatch hadvance).mpr
    have hstep : plainStep (decide (Supported dag m.state id)) (decide (m.state.budget.HasSlack id))
        .ready = some .running := if_pos (decide_eq_true hslack)
    rw [hstep]
    refine ⟨rfl, ⟨phase_dispatch_ok w hadvance, ?_, ?_⟩, _, rfl, ?_⟩
    · exact ((dispatch_frame w id .allocateBudget m₁.state).1).trans (if_pos (by simp)).symm
    · exact sameSetup_dispatch id .allocateBudget m₁.state
    · exact congrArg (fun phase => [(id, phase, JobPhase.running)]) hsource
  · have hstep : plainStep (decide (Supported dag m.state id)) (decide (m.state.budget.HasSlack id))
        .ready = none := if_neg (by simpa using hslack)
    rw [hstep]
    cases hanswer : (handle w (.tryAllocate id) m.state).1 with
    | ok u => exact absurd ((m.state.budget.tryAllocate_ok_iff id).mp hanswer) hslack
    | error e =>
      have hsame : (m.step (handle w) 0 (.tryAllocate id)).state.budget = m.state.budget :=
        BudgetTree.tryAllocate_error hanswer
      exact ⟨rfl, .nil (fun _ => rfl) hsame ⟨rfl, rfl, rfl, rfl⟩, [], (List.append_nil _).symm, rfl⟩

/-- Without a policy a failed job is given up. -/
theorem wp_decideRetry_plain (hplain : m.state.state.Plain) :
    wp (handle w) 0 (decideRetry id)
      (fun outcome m₁ => outcome = .deadletter ∧ Walked id [] m m₁) (fun _ _ => False) m := by
  apply wp_perform_bind.mpr
  obtain ⟨attempt, history, hanswer⟩ : ∃ attempt history,
      (handle w (.readRetry id) m.state).1 = (.noRetry, attempt, history) := by
    refine ⟨(m.state.state.attempts.get? id).getD 1, (m.state.state.failureHistory.get? id).getD [], ?_⟩
    show ((m.state.state.retryPolicies.get? id.kind).getD .noRetry, _, _) = _
    rw [hplain.retryPolicies]
  rw [hanswer]
  apply wp_perform_bind.mpr
  have hdecision : (handle w (.decide .noRetry attempt history)
      (m.step (handle w) 0 (.readRetry id)).state).1 = .deadletter :=
    RetryPolicy.decide_noRetry w.floatJitter (m.state.time + 1) attempt history
  rw [hdecision]
  exact ⟨rfl, .nil (fun _ => rfl) rfl (.refl _)⟩

theorem wp_advanceOnce_plain (dag : Dag) (transitions : List TransitionEvent)
    (hplain : m.state.state.Plain)
    (hretrying : ∀ untilMs, m.state.phase id ≠ .retrying untilMs) :
    wp (handle w) 0 (advanceOnce id (m.state.phase id) dag transitions)
      (StepsTo id transitions (m.state.phase id)
        (plainStep (decide (Supported dag m.state id)) (decide (m.state.budget.HasSlack id))
          (m.state.phase id)) m)
      (fun _ _ => False) m := by
  have hstill : ∀ transitions : List TransitionEvent,
      StepsTo id transitions (m.state.phase id) none m (false, transitions) m := fun transitions =>
    ⟨rfl, .nil (fun _ => rfl) rfl (.refl _), [], (List.append_nil _).symm, rfl⟩
  have hread : Walked id [] m (m.step (handle w) 0 (.readGates id)) := .nil (fun _ => rfl) rfl (.refl _)
  obtain ⟨hphase, hwaiting⟩ := cohortAggregate_plain dag m.state id
  set aggregate := cohortAggregate ⟨id, ⟨m.state.state.phases⟩, dag⟩ [] with haggregate
  have hnotRunning : aggregate.phase ≠ .running := by
    rw [hphase]
    split <;> simp
  -- the gates let the job through, or it waits
  have hgates := fun hadvance :
      advance (m.state.phase id) (.evaluateGates aggregate) = .ok aggregate.phase =>
    wp_sendOn (w := w) transitions hread hadvance hnotRunning
  cases hsource : m.state.phase id with
  | pending =>
    apply wp_bind.mpr
    apply (wp_evaluateGates_plain hplain).mpr
    rw [← haggregate, if_neg (by simp)]
    have hsent := hgates (advance_evaluateGates_iff.mpr ⟨by rw [hsource]; rfl, rfl⟩)
    rw [hsource, hphase] at hsent
    simpa [plainStep] using hsent
  | gated =>
    apply wp_bind.mpr
    apply (wp_evaluateGates_plain hplain).mpr
    rw [← haggregate]
    by_cases hsupported : Supported dag m.state id
    · have hgo : ¬ aggregate = .someWaiting := fun h => hwaiting.mp h hsupported
      rw [if_neg (by simp [hgo])]
      have hsent := hgates (advance_evaluateGates_iff.mpr ⟨by rw [hsource]; rfl, rfl⟩)
      rw [hsource, hphase, if_pos hsupported] at hsent
      simpa [plainStep, hsupported] using hsent
    · rw [if_pos (by simp [hwaiting.mpr hsupported])]
      refine ⟨?_, ?_, [], (List.append_nil _).symm, ?_⟩
      · simp [plainStep, hsupported]
      · simpa [plainStep, hsupported] using hread
      · simp [plainStep, hsupported, stepsAlong, pathSteps]
  | ready => exact wp_advanceOnce_ready dag transitions hsource
  | failed n =>
    apply wp_bind.mpr
    refine wp_mono (wp_decideRetry_plain hplain) ?_ fun _ _ he => he
    rintro outcome m₁ ⟨rfl, hwalked⟩
    have hadvance : advance (m.state.phase id) (.retryDecide .deadletter) = .ok .deadlettered :=
      advance_retryDecide_iff.mpr ⟨⟨n, hsource⟩, rfl⟩
    have hsent := wp_sendOn (w := w) transitions hwalked hadvance (by simp)
    rw [hsource] at hsent
    exact hsent
  | retrying untilMs => exact absurd hsource (hretrying untilMs)
  | _ =>
    rw [hsource] at hstill
    exact hstill transitions

/-! ## Driving -/

/-- A job at `phase` was driven along `path`. -/
def DrivenAlong (id : JobId) (transitions : List TransitionEvent) (phase : JobPhase)
    (path : List JobPhase) (m : SchedMachine) (transitions' : List TransitionEvent) (m' : SchedMachine) :
    Prop :=
  Walked id path m m' ∧ ∃ new, transitions' = transitions ++ new ∧
    new.map TransitionEvent.step = stepsAlong id phase path

theorem not_retrying_of_plainStep {supported slack : Bool} {phase next : JobPhase}
    (h : plainStep supported slack phase = some next) (untilMs : Int64) : next ≠ .retrying untilMs := by
  rintro rfl
  cases phase <;> simp [plainStep] at h
  split at h <;> cases h

/-- Neither end of a step is terminal, unless it leads to Deadlettered. -/
theorem not_terminal_of_plainStep {supported slack : Bool} {phase next : JobPhase}
    (h : plainStep supported slack phase = some next) (hnext : next ≠ .deadlettered) :
    phase.isTerminal = false ∧ next.isTerminal = false := by
  cases phase with
  | pending =>
    obtain rfl := Option.some.inj h
    refine ⟨rfl, ?_⟩
    split <;> rfl
  | gated =>
    obtain ⟨-, rfl⟩ := by simpa [plainStep] using h
    exact ⟨rfl, rfl⟩
  | ready =>
    obtain ⟨-, rfl⟩ := by simpa [plainStep] using h
    exact ⟨rfl, rfl⟩
  | failed n => exact absurd (Option.some.inj h).symm hnext
  | _ => cases h

/-- A step of a job changes neither what supports it nor, unless it is started, what slack it has. -/
theorem settle_walked {supported slack : Bool} {next : JobPhase} (bound : Nat)
    (hstep : plainStep supported slack (m.state.phase id) = some next) (h : Walked id [next] m m')
    (hsupported : supported = decide (Supported dag m.state id))
    (hslack : slack = decide (m.state.budget.HasSlack id)) :
    settle (decide (Supported dag m'.state id)) (decide (m'.state.budget.HasSlack id)) bound next =
      settle supported slack bound next := by
  by_cases hstarted : next = .running
  · rw [hstarted, settle_of_stuck rfl, settle_of_stuck rfl]
  · have hbudget : m'.state.budget = m.state.budget :=
      h.budget.trans (if_neg (by simpa using Ne.symm hstarted))
    by_cases hdead : next = .deadlettered
    · rw [hdead, settle_of_stuck rfl, settle_of_stuck rfl]
    · obtain ⟨hbefore, hafter⟩ := not_terminal_of_plainStep hstep hdead
      have hsame : Supported dag m'.state id ↔ Supported dag m.state id := by
        refine forall₂_congr fun pred _ => ?_
        by_cases hpred : pred = id
        · rw [hpred, h.phase_self, hbefore]
          exact iff_of_false (by simpa using hafter) (by simp)
        · rw [h.phase_ne hpred]
      rw [hsupported, hslack, hbudget, decide_eq_decide.mpr hsame]

/-- **What driving a job does** when nothing but its predecessors and the budget can hold it back. -/
theorem wp_drive_plain (dag : Dag) (id : JobId) (hplain : m.state.state.Plain) (bound : Nat)
    (transitions : List TransitionEvent)
    (hretrying : ∀ untilMs, m.state.phase id ≠ .retrying untilMs) :
    wp (handle w) 0 (drive dag id bound transitions)
      (DrivenAlong id transitions (m.state.phase id)
        (settle (decide (Supported dag m.state id)) (decide (m.state.budget.HasSlack id)) bound
          (m.state.phase id)) m)
      (fun _ _ => False) m := by
  induction bound generalizing m transitions with
  | zero => exact ⟨.nil (fun _ => rfl) rfl (.refl _), [], (List.append_nil _).symm, rfl⟩
  | succ bound ih =>
    apply wp_perform_bind.mpr
    set m₁ := m.step (handle w) 0 (.phaseOf id) with hm₁
    have hanswer : (handle w (.phaseOf id) m.state).1 = m₁.state.phase id := rfl
    rw [hanswer]
    split
    · next hrunning =>
      -- a Running job is left to PASS 2
      have hphase : m.state.phase id = .running := hrunning
      rw [hphase, settle_of_stuck rfl]
      exact ⟨.nil (fun _ => rfl) rfl (.refl _), [], (List.append_nil _).symm, rfl⟩
    · have hstep := wp_advanceOnce_plain (w := w) (m := m₁) dag transitions hplain
        hretrying
      apply wp_bind.mpr
      refine wp_mono hstep ?_ fun _ _ he => he
      rintro ⟨progressed, transitions'⟩ m₂ ⟨hprogressed, hwalked, new, rfl, hnew⟩
      obtain rfl : progressed = _ := hprogressed
      have hwalked : Walked id (plainStep (decide (Supported dag m.state id))
          (decide (m.state.budget.HasSlack id)) (m.state.phase id)).toList m m₂ :=
        ⟨hwalked.phase, hwalked.budget, hwalked.setup⟩
      have hnew : new.map TransitionEvent.step = stepsAlong id (m.state.phase id)
        (plainStep (decide (Supported dag m.state id)) (decide (m.state.budget.HasSlack id))
          (m.state.phase id)).toList := hnew
      show wp (handle w) 0 (if (plainStep (decide (Supported dag m.state id))
          (decide (m.state.budget.HasSlack id)) (m.state.phase id)).isSome = true then _ else _) _ _ m₂
      cases hnext : plainStep (decide (Supported dag m.state id)) (decide (m.state.budget.HasSlack id))
          (m.state.phase id) with
      | none =>
        rw [hnext] at hwalked hnew
        rw [settle_of_stuck hnext]
        exact ⟨hwalked, new, rfl, hnew⟩
      | some next =>
        rw [hnext] at hwalked hnew
        have hrest := ih (m := m₂) (hwalked.setup.plain hplain) (transitions ++ new) fun untilMs => by
          rw [hwalked.phase_self]
          exact not_retrying_of_plainStep hnext untilMs
        have hphase : m₂.state.phase id = next := hwalked.phase_self
        rw [hphase, settle_walked bound hnext hwalked rfl rfl] at hrest
        refine wp_mono hrest ?_ fun _ _ he => he
        rintro transitions₃ m₃ ⟨hwalked₃, new₃, rfl, hnew₃⟩
        rw [settle, hnext]
        refine ⟨hwalked.cons hwalked₃ ?_, new ++ new₃, by simp, ?_⟩
        · rintro rfl
          exact settle_of_stuck rfl bound
        · rw [List.map_append, hnew, hnew₃]
          rfl

/-! ## Samples -/

namespace Sample

/-- A job that succeeds and a job that fails. -/
def okAndErr : List Call := [.registerJob (job "a" .ok), .registerJob (job "b" .err)]

/-- How they end. -/
def twoOutcomes (id : JobId) : ExecResult := if id = jobId "b" then .error () else .ok ()

end Sample

theorem ends_okAndErr : (runCalls Sample.agedWorld Sample.okAndErr
    (InProcessScheduler.new "t").start).state.state.Ends Sample.twoOutcomes := by
  intro id job hget time
  have hjobs : Map.get? (((∅ : Map JobId ErasedJob).insert (Sample.jobId "a") (Sample.job "a" .ok)).insert
      (Sample.jobId "b") (Sample.job "b" .err)) id = some job := hget
  rw [Map.get?_insert, Map.get?_insert] at hjobs
  unfold Sample.twoOutcomes
  split at hjobs
  · next hid =>
    obtain rfl := Option.some.inj hjobs
    rw [if_pos hid]
    rfl
  · next hid =>
    rw [if_neg hid]
    split at hjobs
    · obtain rfl := Option.some.inj hjobs
      rfl
    · cases hjobs

theorem plain_okAndErr : (runCalls Sample.agedWorld Sample.okAndErr
    (InProcessScheduler.new "t").start).state.state.Plain := ⟨fun _ => rfl, fun _ => rfl⟩

end Shigoto
