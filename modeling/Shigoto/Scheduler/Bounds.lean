import Shigoto.Scheduler.Legality
import Shigoto.Scheduler.Passes

/-!
# The bounds of the loops over one job

PASS 1 steps a job at most six times, PASS 3 at most three times. The phases form a ladder: a step that
reports progress climbs it by a rung at least (`wp_advanceOnce_climbs`), whatever the gates, the policies,
the budget and the clock answer. There are six rungs, so six steps are never used up; and three are
enough to leave Failed, Retrying and Pending behind.

`driveUntil` is `drive` that also reports why it ended.
-/

namespace Shigoto

open Atomic

variable {w : World} {m : SchedMachine} {id : JobId} {dag : Dag}

/-! ## The ladder -/

/-- How far a phase is on the way from a failure to the next execution, or out of the tick. -/
def JobPhase.rung : JobPhase → Nat
  | .failed _ => 0
  | .retrying _ => 1
  | .pending => 2
  | .gated => 3
  | .ready => 4
  | .running | .succeeded | .skipped _ | .deadlettered | .waitingForOperator => 5

theorem JobPhase.rung_le (phase : JobPhase) : phase.rung ≤ 5 := by
  cases phase <;> simp [rung]

/-- A phase that a tick leaves at once. -/
def JobPhase.fleeting : JobPhase → Bool
  | .pending | .failed _ => true
  | _ => false

theorem JobPhase.not_fleeting_of_rung {phase : JobPhase} (h : 2 < phase.rung) :
    phase.fleeting = false := by
  cases phase with
  | pending => exact absurd h (Nat.lt_irrefl 2)
  | failed attempts => exact absurd h (Nat.not_lt_zero 2)
  | _ => rfl

/-- A verdict takes a Pending job up, and a Gated one that need not wait. -/
theorem GateAggregate.rung_phase (aggregate : GateAggregate) :
    2 < aggregate.phase.rung ∧ (aggregate ≠ .someWaiting → 3 < aggregate.phase.rung) := by
  cases aggregate <;> simp [GateAggregate.phase, JobPhase.rung]

theorem RetryOutcome.rung_phase (outcome : RetryOutcome) : 0 < outcome.phase.rung := by
  cases outcome <;> simp [RetryOutcome.phase, JobPhase.rung]

/-! ## One step -/

/-- A step from `source` either climbs, or leaves the job where it is; no job stays in a fleeting phase. -/
def Climbs (id : JobId) (source : JobPhase) (r : Bool × List TransitionEvent) (m : SchedMachine) : Prop :=
  if r.1 then source.rung < (m.state.phase id).rung
  else m.state.phase id = source ∧ source.fleeting = false

/-- Questions move nothing. -/
theorem wp_asks (id : JobId) {α : Type} {p : Sched α} {ids : List JobId}
    (hp : Issues (Cmd.asks ids) (fun _ => False) p) :
    wp (handle w) 0 p (fun _ m' => m'.state.phase id = m.state.phase id) (fun _ _ => False) m := by
  have hasked := hp.wp (h := handle w) (t := 0) (J := fun m' => m'.state.phase id = m.state.phase id)
    (fun m' c hm' hc => (phase_of_not_moves w (Cmd.not_moves_of_asks hc) m'.state id).trans hm')
    (m := m) rfl
  exact wp_mono hasked (fun _ _ hm' => hm') fun _ _ he => he.1

/-- A signal that the table accepts and that leads up. -/
theorem wp_dispatch_climbs {source target : JobPhase} {signal : Signal}
    (transitions : List TransitionEvent) (hsource : m.state.phase id = source)
    (hadvance : advance source signal = .ok target) (hup : source.rung < target.rung) :
    wp (handle w) 0 (do
        let transitions ← dispatch id signal transitions
        return (true, transitions))
      (Climbs id source) (fun _ _ => False) m := by
  subst hsource
  apply wp_bind.mpr
  apply (wp_dispatch hadvance).mpr
  have hafter : (m.step (handle w) 0 (.dispatch id signal)).state.phase id = target :=
    (phase_dispatch_ok w hadvance id).trans (if_pos rfl)
  show (m.state.phase id).rung < JobPhase.rung _
  rw [hafter]
  exact hup

/-- The gates take a Pending job up; a Gated one goes up or has to wait. -/
theorem wp_evaluate_climbs {source : JobPhase} (transitions : List TransitionEvent)
    (hsource : m.state.phase id = source) (hphase : source = .pending ∨ source = .gated) :
    wp (handle w) 0 (do
        let aggregate ← evaluateGates id dag
        let alreadyGated := source = .gated && aggregate = .someWaiting
        if alreadyGated then return (false, transitions)
        else do
          let transitions ← dispatch id (.evaluateGates aggregate) transitions
          return (true, transitions)) (Climbs id source) (fun _ _ => False) m := by
  apply wp_bind.mpr
  refine wp_mono (wp_asks id (issues_evaluateGates (List.mem_singleton_self id) dag)) ?_
    fun _ _ he => he
  intro aggregate m₁ hasked
  have hstill : m₁.state.phase id = source := hasked.trans hsource
  dsimp only
  split
  · next hwaits =>
    obtain ⟨hgated, -⟩ : source = .gated ∧ aggregate = .someWaiting := by simpa using hwaits
    exact ⟨hstill, hgated ▸ rfl⟩
  · next hmoves =>
    have hevaluable : source.evaluable = true := by
      rcases hphase with hpending | hgated
      · rw [hpending]; rfl
      · rw [hgated]; rfl
    refine wp_dispatch_climbs transitions hstill (advance_evaluateGates_iff.mpr ⟨hevaluable, rfl⟩) ?_
    rcases hphase with hpending | hgated
    · rw [hpending]
      exact aggregate.rung_phase.1
    · rw [hgated]
      exact aggregate.rung_phase.2 fun hwaiting => hmoves (by simp [hgated, hwaiting])

/-- **A step that reports progress climbs**; without progress the job stays where it is, which is neither
Pending nor Failed. No step fails. -/
theorem wp_advanceOnce_climbs {source : JobPhase} (transitions : List TransitionEvent)
    (hsource : m.state.phase id = source) :
    wp (handle w) 0 (advanceOnce id source dag transitions) (Climbs id source) (fun _ _ => False) m := by
  cases source with
  | pending => exact wp_evaluate_climbs transitions hsource (.inl rfl)
  | gated => exact wp_evaluate_climbs transitions hsource (.inr rfl)
  | ready =>
    apply wp_perform_bind.mpr
    have hstill : (m.step (handle w) 0 (.tryAllocate id)).state.phase id = .ready := hsource
    cases (handle w (.tryAllocate id) m.state).1 with
    | error e => exact ⟨hstill, rfl⟩
    | ok u =>
      exact wp_dispatch_climbs transitions hstill (advance_allocateBudget_iff.mpr ⟨rfl, rfl⟩) (by decide)
  | retrying untilMs =>
    apply wp_perform_bind.mpr
    have hstill : (m.step (handle w) 0 .now).state.phase id = .retrying untilMs := hsource
    split
    · exact ⟨hstill, rfl⟩
    · exact wp_dispatch_climbs transitions hstill
        (advance_backoffElapsed_iff.mpr ⟨⟨untilMs, rfl⟩, rfl⟩) Nat.one_lt_two
  | failed attempts =>
    apply wp_bind.mpr
    refine wp_mono (wp_asks id (issues_decideRetry (List.mem_singleton_self id))) ?_
      fun _ _ he => he
    intro outcome m₁ hasked
    exact wp_dispatch_climbs transitions (hasked.trans hsource)
      (advance_retryDecide_iff.mpr ⟨⟨attempts, rfl⟩, rfl⟩) outcome.rung_phase
  | _ => exact ⟨hsource, rfl⟩

/-! ## The loop -/

/-- Why a loop over one job ended. -/
inductive LoopEnd
  /-- The job is Running. -/
  | running
  /-- The last step reported no progress. -/
  | noProgress
  /-- All steps were used up. -/
  | bound
  deriving DecidableEq, Repr

/-- `drive`, which also reports why it ended. -/
def driveUntil (dag : Dag) (id : JobId) :
    Nat → List TransitionEvent → Sched (LoopEnd × List TransitionEvent)
  | 0, transitions => return (.bound, transitions)
  | bound + 1, transitions => do
    let source ← lock (.phaseOf id)
    if source = .running then return (.running, transitions)
    else do
      let (progressed, transitions) ← advanceOnce id source dag transitions
      if progressed then driveUntil dag id bound transitions
      else return (.noProgress, transitions)

/-- The report takes nothing away from the run and adds nothing to it. -/
theorem wp_drive_iff {bound : Nat} {transitions : List TransitionEvent}
    {Q : List TransitionEvent → SchedMachine → Prop} {E : SchedulerError → SchedMachine → Prop} :
    wp (handle w) 0 (drive dag id bound transitions) Q E m ↔
      wp (handle w) 0 (driveUntil dag id bound transitions) (fun r => Q r.2) E m := by
  induction bound generalizing m transitions with
  | zero => exact Iff.rfl
  | succ bound ih =>
    unfold drive driveUntil
    rw [lock, wp_perform_bind, wp_perform_bind]
    split
    · exact Iff.rfl
    · rw [wp_bind, wp_bind]
      have hrest : ∀ (r : Bool × List TransitionEvent) (m' : SchedMachine),
          wp (handle w) 0 (if r.1 then drive dag id bound r.2 else return r.2) Q E m' ↔
          wp (handle w) 0 (if r.1 then driveUntil dag id bound r.2 else return (.noProgress, r.2))
            (fun r => Q r.2) E m' := by
        intro r m'
        split
        · exact ih
        · exact Iff.rfl
      exact ⟨fun hwp => wp_mono hwp (fun r m' => (hrest r m').mp) fun _ _ he => he,
        fun hwp => wp_mono hwp (fun r m' => (hrest r m').mpr) fun _ _ he => he⟩

/-- **Why a loop of any bound ends**: when all its steps are used up, the job is as many rungs higher. -/
theorem wp_driveUntil (bound : Nat) (transitions : List TransitionEvent) :
    wp (handle w) 0 (driveUntil dag id bound transitions)
      (fun r m' => match r.1 with
        | .running => m'.state.phase id = .running
        | .noProgress => (m'.state.phase id).fleeting = false
        | .bound => (m.state.phase id).rung + bound ≤ (m'.state.phase id).rung)
      (fun _ _ => False) m := by
  induction bound generalizing m transitions with
  | zero => exact Nat.le_refl _
  | succ bound ih =>
    apply wp_perform_bind.mpr
    set m₁ := m.step (handle w) 0 (.phaseOf id) with hm₁
    have hread : m₁.state.phase id = (handle w (.phaseOf id) m.state).1 := rfl
    split
    · next hrunning => exact hread.trans hrunning
    · apply wp_bind.mpr
      refine wp_mono (wp_advanceOnce_climbs transitions hread) ?_ fun _ _ he => he
      rintro ⟨progressed, transitions'⟩ m₂ hclimbs
      cases progressed with
      | false =>
        obtain ⟨hstill, hsettled⟩ : m₂.state.phase id = _ ∧ _ := hclimbs
        show (m₂.state.phase id).fleeting = false
        rw [hstill]
        exact hsettled
      | true =>
        have hup : (m.state.phase id).rung < (m₂.state.phase id).rung := hclimbs
        refine wp_mono (ih transitions') ?_ fun _ _ he => he
        rintro ⟨stop, transitions''⟩ m₃ hend
        cases stop with
        | bound =>
          have hrest : (m₂.state.phase id).rung + bound ≤ (m₃.state.phase id).rung := hend
          show (m.state.phase id).rung + (bound + 1) ≤ (m₃.state.phase id).rung
          omega
        | _ => exact hend

/-- Six steps are never used up. -/
theorem wp_driveUntil_six (id : JobId) (dag : Dag) (transitions : List TransitionEvent) :
    wp (handle w) 0 (driveUntil dag id 6 transitions)
      (fun r m' => r.1 = .running ∧ m'.state.phase id = .running ∨ r.1 = .noProgress)
      (fun _ _ => False) m := by
  refine wp_mono (wp_driveUntil 6 transitions) ?_ fun _ _ he => he
  rintro ⟨stop, transitions'⟩ m' hend
  cases stop with
  | running => exact .inl ⟨rfl, hend⟩
  | noProgress => exact .inr rfl
  | bound =>
    have hused : (m.state.phase id).rung + 6 ≤ (m'.state.phase id).rung := hend
    have htop := (m'.state.phase id).rung_le
    omega

/-- Three steps are enough to leave the fleeting phases. -/
theorem wp_drive_three (transitions : List TransitionEvent) :
    wp (handle w) 0 (drive dag id 3 transitions)
      (fun _ m' => (m'.state.phase id).fleeting = false) (fun _ _ => False) m := by
  refine wp_drive_iff.mpr (wp_mono (wp_driveUntil 3 transitions) ?_ fun _ _ he => he)
  rintro ⟨stop, transitions'⟩ m' hend
  cases stop with
  | running =>
    have hrunning : m'.state.phase id = .running := hend
    rw [hrunning]
    rfl
  | noProgress => exact hend
  | bound =>
    have hused : (m.state.phase id).rung + 3 ≤ (m'.state.phase id).rung := hend
    exact JobPhase.not_fleeting_of_rung (by omega)

/-! ## The waves -/

/-- Once settled, a job is settled at the end of PASS 3, and so is every job of the wave. -/
theorem wp_pass3_settles {wave : List JobId} (transitions : List TransitionEvent)
    (h : id ∈ wave ∨ (m.state.phase id).fleeting = false) :
    wp (handle w) 0 (pass3 dag wave transitions)
      (fun _ m' => (m'.state.phase id).fleeting = false) (fun e _ => e.refusal) m := by
  refine wp_pass3_job (K := fun _ => True)
    (fun m transitions _ => wp_mono (wp_drive_three transitions) (fun _ _ h => h) fun _ _ he => he.elim)
    (fun m m' ids hid hdrove => ⟨fun h => h, fun hsettled => ?_⟩) (fun _ _ => True.intro) transitions
    True.intro h
  rw [hdrove.others id (.inl hid)]
  exact hsettled

/-- **No job of the waves is left in a fleeting phase.** A later wave leaves the jobs of the earlier ones
alone. -/
theorem wp_runWaves_settles {waves : List (List JobId)} (hnodup : ∀ wave ∈ waves, wave.Nodup)
    (transitions : List TransitionEvent)
    (h : id ∈ waves.flatten ∨ (m.state.phase id).fleeting = false) :
    wp (handle w) 0 (runWaves dag waves transitions)
      (fun _ m' => (m'.state.phase id).fleeting = false) (fun e _ => e.refusal) m := by
  induction waves generalizing m transitions with
  | nil => exact h.resolve_left List.not_mem_nil
  | cons wave waves ih =>
    obtain ⟨hwave, hrest⟩ := List.forall_mem_cons.mp hnodup
    apply wp_bind.mpr
    refine wp_mono (wp_drives (issues_pass1 dag wave transitions)) (fun transitions₁ m₁ hdrove => ?_)
      fun _ _ he => he.1
    apply wp_bind.mpr
    refine wp_mono (wp_pass2 hwave) ?_ fun _ _ he => he.elim
    rintro transitions₂ m₂ ⟨tasks, new, hexecuted, -, -⟩
    apply wp_bind.mpr
    by_cases hid : id ∈ wave
    · exact wp_mono (wp_pass3_settles transitions₂ (.inl hid))
        (fun transitions₃ m₃ hsettled => ih hrest transitions₃ (.inr hsettled)) fun _ _ he => he
    · -- the wave leaves the job alone
      have hidle : id ∉ m₁.state.runningOf wave := fun hmem =>
        hid (InProcessScheduler.mem_runningOf.mp hmem).1
      have hsame : m₂.state.phase id = m.state.phase id :=
        (hexecuted.others id hidle).trans (hdrove.others id (.inl hid))
      refine wp_mono (wp_drives (issues_pass3 dag wave transitions₂))
        (fun transitions₃ m₃ hdrove₃ => ih hrest transitions₃ ?_) fun _ _ he => he.1
      rw [hdrove₃.others id (.inl hid), hsame]
      refine h.imp_left fun hmem => ?_
      rw [List.flatten_cons] at hmem
      exact (List.mem_append.mp hmem).resolve_left hid

theorem wp_tick_settles (hbuilt : dag.Built) (hsort : w.toposort.Sorts dag.graph)
    (hacyclic : ¬ dag.Cyclic) (hnode : dag.HasNode id) :
    wp (handle w) 0 (tick dag)
      (fun _ m' => (m'.state.phase id).fleeting = false) (fun e _ => e.refusal) m := by
  refine wp_tick_acyclic hbuilt hsort hacyclic fun ws _ hperm hnodup => ?_
  have hmem : id ∈ ws.flatten := hperm.mem_iff.mpr (hbuilt.wellFormed.mem_ids.mpr hnode)
  exact wp_runWaves_settles (List.nodup_flatten.mp hnodup).1 [] (.inl hmem)

/-! ## The result -/

/-- **The bounds of the loops never cut a job off.** From any state of the scheduler, whatever gates,
policies, clock, budget and executions answer at each moment: a loop of six steps over a job ends because
the job is Running or because its last step reported no progress, and never because six steps were used
up. On any acyclic graph the tick ends well, and leaves no job of the graph Pending or Failed. -/
theorem loop_bounds_suffice (w : World) {dag : Dag} (hbuilt : dag.Built)
    (hsort : w.toposort.Sorts dag.graph) (hacyclic : ¬ dag.Cyclic) :
    (∀ (m : SchedMachine) (id : JobId) (transitions : List TransitionEvent),
      ∃ stop transitions' m',
        (driveUntil dag id 6 transitions).exec (handle w) 0 m = (.ok (stop, transitions'), m') ∧
        (drive dag id 6 transitions).exec (handle w) 0 m = (.ok transitions', m') ∧
        (stop = .running ∧ m'.state.phase id = .running ∨ stop = .noProgress)) ∧
    ∀ s : InProcessScheduler, ∃ receipt, ((tick dag).exec (handle w) 0 s.start).1 = .ok receipt ∧
      ∀ id, dag.HasNode id →
        let phase := ((tick dag).exec (handle w) 0 s.start).2.state.phase id
        phase ≠ .pending ∧ ∀ attempts, phase ≠ .failed attempts := by
  refine ⟨fun m id transitions => ?_, fun s => ?_⟩
  · have hsix := wp_driveUntil_six (w := w) (m := m) id dag transitions
    obtain ⟨⟨stop, transitions'⟩, m', hrun, hend⟩ := exists_exec_ok hsix
    refine ⟨stop, transitions', m', hrun, exec_eq_ok_iff.mpr (wp_drive_iff.mpr ?_), hend⟩
    refine wp_mono (exec_eq_ok_iff.mp hrun) (fun r n hr => ?_) fun _ _ he => he
    exact ⟨congrArg Prod.snd hr.1, hr.2⟩
  · have hsettles : ∀ id, dag.HasNode id → wp (handle w) 0 (tick dag)
        (fun _ m' => (m'.state.phase id).fleeting = false) (fun e _ => e.refusal) s.start :=
      fun id hnode => wp_tick_settles hbuilt hsort hacyclic hnode
    cases hrun : ((tick dag).exec (handle w) 0 s.start).1 with
    | error e =>
      obtain ⟨i, hcycle⟩ := unsorted_of_error hrun
      obtain ⟨order, hsorted⟩ := hsort.ok_iff.mpr (hbuilt.wellFormed.acyclic_iff.mpr hacyclic)
      rw [hcycle] at hsorted
      cases hsorted
    | ok receipt =>
      refine ⟨receipt, rfl, fun id hnode => ?_⟩
      have hsettled := (wp_iff_exec.mp (hsettles id hnode)).1 receipt hrun
      exact ⟨fun hpending => by simp [hpending, JobPhase.fleeting] at hsettled,
        fun attempts hfailed => by simp [hfailed, JobPhase.fleeting] at hsettled⟩

/-- Job `a` is restored as Failed, its policy retries at once, and its gate lets it wait once. -/
def Sample.wavering : InProcessScheduler :=
  (runCalls Sample.agedWorld
    [.registerGate ⟨"build"⟩ ⟨fun time _ => if time < 14 then .wait else .pass⟩,
      .registerRetryPolicy ⟨"build"⟩ (.fixed 3 0),
      .restoreState ⟨[⟨Sample.jobId "a", .failed 1, 1, []⟩]⟩]
    (InProcessScheduler.new "t").start).state

/-- Five steps of six take the job up the whole ladder. -/
theorem loop_bounds_suffice_wavering :
    let run := (driveUntil Sample.detour (Sample.jobId "a") 6 []).exec (handle Sample.agedWorld) 0
      Sample.wavering.start
    (∃ stop transitions, run.1 = .ok (stop, transitions) ∧ stop ≠ .bound) ∧
    run.2.state.emitted.map (·.target) =
      [.retrying 0, .pending, .gated, .ready, .running] ∧
    ∃ receipt, ((tick Sample.detour).exec (handle Sample.agedWorld) 0 Sample.wavering.start).1 =
      .ok receipt := by
  intro run
  obtain ⟨hloop, htick⟩ :=
    loop_bounds_suffice Sample.agedWorld built_detour sorts_detour Dag.acyclic_detour
  obtain ⟨stop, transitions, m', hrun, -, hend⟩ :=
    hloop Sample.wavering.start (Sample.jobId "a") []
  obtain ⟨receipt, hreceipt, -⟩ := htick Sample.wavering
  refine ⟨⟨stop, transitions, congrArg Prod.fst hrun, ?_⟩, by decide +kernel, receipt, hreceipt⟩
  rcases hend with ⟨hrunning, -⟩ | hstuck
  · rw [hrunning]
    decide
  · rw [hstuck]
    decide

end Shigoto
