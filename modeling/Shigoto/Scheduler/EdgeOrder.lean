import Shigoto.Scheduler.Sequential

/-!
# Edges are respected over whole runs

On a run whose ticks all drive one graph, with no operator and no restore, a job that has come as far
as Ready has only terminal predecessors, and they stay terminal. The gates are asked only while the
job is Pending or Gated; what carries the fact from there on is that nothing leaves a terminal phase.
-/

namespace Shigoto

open Atomic

variable {w : World} {dag : Dag}

/-! ## The order of phases -/

/-- Phases that a job reaches only through its gates. -/
def JobPhase.started : JobPhase → Bool
  | .ready | .running | .succeeded | .failed _ | .retrying _ | .deadlettered => true
  | _ => false

theorem GateAggregate.ready_of_started {aggregate : GateAggregate}
    (h : aggregate.phase.started = true) :
    aggregate.phase = .ready := by
  cases aggregate with
  | allPassed gates => rfl
  | vacuous => rfl
  | someWaiting => exact Bool.noConfusion h
  | skipped reason => exact Bool.noConfusion h

/-- Every started job has only terminal predecessors. -/
def Ordered (dag : Dag) (s : InProcessScheduler) : Prop :=
  ∀ id, (s.phase id).started = true →
    ∀ pred ∈ dag.predecessors id, (s.phase pred).isTerminal = true

/-- An accepted signal keeps the order: a job starts only if its gates let it through. -/
theorem Ordered.dispatched {v : View} {s s' : InProcessScheduler} (h : Ordered dag s)
    (hs : v.Sound s) (hdag : v.pass.dag = dag) {id : JobId} {signal : Signal} {target : JobPhase}
    (hdue : Due v.pass id v.focus signal)
    (hadvance : advance (s.phase id) signal = .ok target)
    (hphase : ∀ id', s'.phase id' = if id' = id then target else s.phase id') :
    Ordered dag s' := by
  obtain ⟨pass, focus⟩ := v
  -- what was terminal still is
  have hterminal : ∀ pred, (s.phase pred).isTerminal = true → (s'.phase pred).isTerminal = true := by
    intro pred hpred
    have hne : pred ≠ id := by
      rintro rfl
      exact absurd hpred (by simp [hdue.not_terminal hadvance])
    rwa [hphase, if_neg hne]
  have hkeep : ∀ id', (s.phase id').started = true →
      ∀ pred ∈ dag.predecessors id', (s'.phase pred).isTerminal = true :=
    fun id' hid' pred hpred => hterminal pred (h id' hid' pred hpred)
  intro id' hstarted
  by_cases hne : id' = id
  · subst hne
    rw [hphase, if_pos rfl] at hstarted
    cases hdue with
    | gates phase ctx outcomes news =>
      obtain ⟨-, rfl⟩ := advance_evaluateGates_iff.mp hadvance
      have hready := GateAggregate.ready_of_started hstarted
      obtain ⟨-, -, rfl, hcontext, hphases⟩ := hs.agrees
      obtain rfl : ctx.dag = dag := hcontext.trans hdag
      intro pred hpred
      apply hterminal pred
      have hall := (cohortAggregate_ready_iff.mp hready).1 pred hpred
      rwa [hphases True.intro] at hall
    | backoff untilMs nowMs elapsed =>
      obtain ⟨-, rfl⟩ := advance_backoffElapsed_iff.mp hadvance
      exact Bool.noConfusion hstarted
    | slot seeded =>
      obtain ⟨hsource, -⟩ := advance_allocateBudget_iff.mp hadvance
      exact hkeep id' (by rw [hsource]; rfl)
    | retry outcome =>
      obtain ⟨⟨n, hsource⟩, -⟩ := advance_retryDecide_iff.mp hadvance
      exact hkeep id' (by rw [hsource]; rfl)
    | success results =>
      obtain ⟨hsource, -⟩ := advance_executionSucceeded_iff.mp hadvance
      exact hkeep id' (by rw [hsource]; rfl)
    | failure results =>
      obtain ⟨hsource, -⟩ := advance_executionFailed_iff.mp hadvance
      exact hkeep id' (by rw [hsource]; rfl)
  · rw [hphase, if_neg hne] at hstarted
    exact hkeep id' hstarted

/-! ## Executions and their results -/

/-- The event applies the result of an execution of `id`. -/
def endsExecution (id : JobId) (e : SchedEvent) : Bool :=
  match e.cmd with
  | .dispatch id' .executionSucceeded | .dispatch id' .executionFailed =>
    id' = id && e.pre.phase id = .running
  | _ => false

/-- Every execution of `id` in the log has been applied. -/
def lastApplied (id : JobId) : List SchedEvent → Bool
  | [] => true
  | e :: past =>
    if endsExecution id e then true
    else match e.cmd with
      | .spawn id' _ _ => if id' = id then false else lastApplied id past
      | _ => lastApplied id past

/-- An outstanding execution was spawned just now or was outstanding before, and this event does not
end it. -/
theorem of_lastApplied_cons {id : JobId} {e : SchedEvent} {past : List SchedEvent}
    (h : lastApplied id (e :: past) = false) :
    endsExecution id e = false ∧
      ((∃ job timeout, e.cmd = .spawn id job timeout) ∨ lastApplied id past = false) := by
  unfold lastApplied at h
  split at h
  · simp at h
  · next hends =>
    refine ⟨by simpa using hends, ?_⟩
    split at h
    · next id' job timeout hcmd =>
      split at h
      · next hid => exact .inl ⟨job, timeout, hid ▸ hcmd⟩
      · exact .inr h
    · exact .inr h

/-! ## The invariant -/

/-- The calls of a run on one graph. -/
def Call.ticksOn (dag : Dag) : Call → Prop
  | .tick dag' => dag' = dag
  | .operatorTransition _ _ _ | .restoreState _ => False
  | _ => True

structure EdgeOrder (w : World) (dag : Dag) (m : SchedMachine) : Prop where
  ordered : Ordered dag m.state
  past : ∀ e ∈ m.log, Ordered dag e.pre
  /-- An execution that is not applied yet is that of a Running job. -/
  outstanding : ∀ id, lastApplied id m.log = false → m.state.phase id = .running
  spawns : ∀ e log, (e :: log) <:+ m.log → ∀ id job timeout, e.cmd = .spawn id job timeout →
    ∀ pred ∈ dag.predecessors id, lastApplied pred log = true

/-- A spawned job is Running. -/
theorem View.Sound.running_of_spawn {v : View} {s : InProcessScheduler} (hs : v.Sound s)
    {id : JobId} {job : Option ErasedJob} {timeout : Option Duration}
    (hallows : v.Allows (.spawn id job timeout)) : s.phase id = .running := by
  obtain ⟨ids, tasks, hfocus⟩ : ∃ ids tasks, v.focus = .fetched id job timeout ids tasks := hallows
  exact hs.running id (by rw [hfocus]; exact List.mem_cons_self)

/-- A predecessor of a spawned job is terminal, so none of its executions is outstanding. -/
theorem EdgeOrder.applied_of_spawn {m : SchedMachine} (hs : Sequential w m)
    (h : EdgeOrder w dag m) {id : JobId} {job : Option ErasedJob} {timeout : Option Duration}
    (hallows : (viewOf w 0 m.log).Allows (.spawn id job timeout)) :
    ∀ pred ∈ dag.predecessors id, lastApplied pred m.log = true := by
  intro pred hpred
  have hrunning := View.Sound.running_of_spawn hs hallows
  have hterminal := h.ordered id (by rw [hrunning]; rfl) pred hpred
  by_contra hnot
  rw [h.outstanding pred (by simpa using hnot)] at hterminal
  simp [JobPhase.isTerminal] at hterminal

theorem EdgeOrder.step {m : SchedMachine} (hs : Sequential w m) (h : EdgeOrder w dag m) {c : Cmd}
    (hallows : (viewOf w 0 m.log).Allows c)
    (hc : c.Permitted (Call.ticksOn dag) (viewOf w 0 m.log).pass.dag) :
    EdgeOrder w dag (m.step (handle w) 0 c) := by
  -- the phases change by accepted signals only
  have hmoves : c.moves = false ∨ ∃ id signal target, c = .dispatch id signal ∧
      Due (viewOf w 0 m.log).pass id (viewOf w 0 m.log).focus signal ∧
      advance (m.state.phase id) signal = .ok target := by
    cases c with
    | dispatch id signal =>
      obtain ⟨target, hadvance⟩ := View.Consistent.advance hs hallows
      exact .inr ⟨id, signal, target, rfl, hallows, hadvance⟩
    | overwrite id phase => exact hc.elim fun _ h => h.elim
    | restoreState saved => exact hc.elim
    | _ => exact .inl rfl
  refine ⟨?_, ?_, ?_, ?_⟩
  · rcases hmoves with hmoves | ⟨id, signal, target, rfl, hdue, hadvance⟩
    · intro id hid pred hpred
      rw [Machine.step, phase_of_not_moves w hmoves] at hid ⊢
      exact h.ordered id hid pred hpred
    · exact h.ordered.dispatched hs hc hdue hadvance (phase_dispatch_ok w hadvance)
  · intro e he
    rcases List.mem_cons.mp he with rfl | he
    · exact h.ordered
    · exact h.past e he
  · intro id hnot
    obtain ⟨hends, ⟨job, timeout, hcmd⟩ | hbefore⟩ := of_lastApplied_cons hnot
    · obtain rfl : c = .spawn id job timeout := hcmd
      rw [Machine.step, phase_of_not_moves w rfl]
      exact View.Sound.running_of_spawn hs hallows
    · have hrunning := h.outstanding id hbefore
      rcases hmoves with hmoves | ⟨id', signal, target, rfl, hdue, hadvance⟩
      · rw [Machine.step, phase_of_not_moves w hmoves]
        exact hrunning
      · rw [Machine.step, phase_dispatch_ok w hadvance]
        split
        · next hid =>
          subst hid
          rw [hrunning] at hadvance
          rcases hdue.of_running hadvance with rfl | rfl <;>
            simp [endsExecution, hrunning] at hends
        · exact hrunning
  · intro e log hlog id job timeout hcmd
    rcases List.suffix_cons_iff.mp hlog with heq | hlog
    · obtain ⟨rfl, rfl⟩ := List.cons.inj heq
      obtain rfl : c = .spawn id job timeout := hcmd
      exact h.applied_of_spawn hs hallows
    · exact h.spawns e log hlog id job timeout hcmd

theorem EdgeOrder.run {s : InProcessScheduler} (hfresh : ∀ id, s.phase id = .pending)
    {calls : List Call} (hcalls : ∀ call ∈ calls, call.ticksOn dag) :
    EdgeOrder w dag (runCalls w calls s.start) := by
  have hstart : EdgeOrder w dag s.start :=
    ⟨fun id hid => absurd (hfresh id ▸ hid : JobPhase.pending.started = true) Bool.false_ne_true,
      by simp [InProcessScheduler.start],
      by simp [InProcessScheduler.start, lastApplied], by simp [InProcessScheduler.start]⟩
  exact (runCalls_induct (fun m c hs hm hallows hc => EdgeOrder.step hs hm hallows hc) hcalls
    (Sequential.start w _) (Resting.start w _) hstart).1

/-! ## The result -/

/-- **Edges are respected.** On every run whose ticks all drive `dag`, at every moment each job that
is Ready or further has only terminal predecessors, and whenever a job is executed, every earlier
execution of its predecessors has been applied. -/
theorem edges_respected (w : World) (tool : String) (dag : Dag) {calls : List Call}
    (hcalls : ∀ call ∈ calls, call.ticksOn dag) :
    let m := runCalls w calls (InProcessScheduler.new tool).start
    (Ordered dag m.state ∧ ∀ e ∈ m.log, Ordered dag e.pre) ∧
    ∀ e log, (e :: log) <:+ m.log → ∀ id job timeout, e.cmd = .spawn id job timeout →
      ∀ pred ∈ dag.predecessors id, lastApplied pred log = true := by
  have hrun : EdgeOrder w dag (runCalls w calls (InProcessScheduler.new tool).start) :=
    EdgeOrder.run (fun _ => rfl) hcalls
  exact ⟨⟨hrun.ordered, hrun.past⟩, hrun.spawns⟩

/-- On a chain of two jobs. -/
theorem edges_respected_chain :
    let m := runCalls Sample.world (Sample.onceOn Sample.chain .err .ok)
      (InProcessScheduler.new "t").start
    m.state.phase (Sample.jobId "b") = .succeeded ∧
    (m.state.phase (Sample.jobId "a")).isTerminal = true := by
  have hcalls : ∀ call ∈ Sample.onceOn Sample.chain .err .ok, call.ticksOn Sample.chain := by
    simp [Sample.onceOn, Call.ticksOn]
  have hrun := edges_respected Sample.world "t" Sample.chain hcalls
  refine ⟨by decide +kernel, hrun.1.1 (Sample.jobId "b") (by decide +kernel) _ (by decide +kernel)⟩

end Shigoto
