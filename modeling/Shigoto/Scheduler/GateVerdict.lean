import Shigoto.Scheduler.Sequential

/-!
# Ready is a verdict of the past

The gates of a job are asked while it is Pending or Gated, and never again: a Ready job waits for a
slot, over ticks if it has to, on the verdict that made it Ready. When it starts, its gates still let
it through exactly when nothing has revoked that verdict since: no operator has re-armed a predecessor
that is not terminal again, the graph of the tick has no new predecessor that is not terminal, no gate
that blocks has been registered, and no gate that let the job through then blocks now.
-/

namespace Shigoto

open Atomic

variable {w : World}

/-! ## Cohorts -/

namespace InProcessScheduler

/-- The gates registered for the kind of `id`. -/
def gatesOf (s : InProcessScheduler) (id : JobId) : List Gate := (s.state.gates.get? id.kind).getD []

/-- What the gates of `id` are shown. -/
def gateContext (s : InProcessScheduler) (dag : Dag) (id : JobId) : GateContext :=
  ⟨id, ⟨s.state.phases⟩, dag⟩

/-- The gate keeps `id` from becoming Ready. -/
def blocks (s : InProcessScheduler) (dag : Dag) (id : JobId) (gate : Gate) : Bool :=
  (gate.evaluate s.time (s.gateContext dag id)).blocking

/-- The gate cohort of `id`, evaluated on the phases of this moment. -/
def cohort (s : InProcessScheduler) (dag : Dag) (id : JobId) : GateAggregate :=
  cohortAggregate (s.gateContext dag id)
    ((s.gatesOf id).map fun gate => gate.evaluate s.time (s.gateContext dag id))

theorem cohort_passes_iff {s : InProcessScheduler} {dag : Dag} {id : JobId} :
    (s.cohort dag id).Passes ↔
      (∀ pred ∈ dag.predecessors id, (s.phase pred).isTerminal = true) ∧
      ∀ gate ∈ s.gatesOf id, s.blocks dag id gate = false := by
  rw [← GateAggregate.phase_eq_ready_iff, cohort, cohortAggregate_ready_iff, List.forall_mem_map]
  exact Iff.rfl

end InProcessScheduler

theorem gatesOf_registerGate (s : InProcessScheduler) (kind : JobKindId) (gate : Gate) (id : JobId) :
    (handle w (.registerGate kind gate) s).2.gatesOf id =
      if id.kind = kind then s.gatesOf id ++ [gate] else s.gatesOf id := by
  rw [InProcessScheduler.gatesOf, gates_handle]
  by_cases hkind : id.kind = kind
  · subst hkind
    simp [InProcessScheduler.gatesOf]
  · rw [if_neg hkind, Map.get?_insert_ne _ _ hkind]
    rfl

theorem gatesOf_handle {c : Cmd} (hc : ∀ kind gate, c ≠ .registerGate kind gate)
    (s : InProcessScheduler) (id : JobId) : (handle w c s).2.gatesOf id = s.gatesOf id := by
  rw [InProcessScheduler.gatesOf, gates_handle]
  cases c with
  | registerGate kind gate => exact absurd rfl (hc kind gate)
  | _ => rfl

/-- Gates are never taken away. -/
theorem gatesOf_grows (c : Cmd) (s : InProcessScheduler) (id : JobId) :
    s.gatesOf id <+: (handle w c s).2.gatesOf id := by
  by_cases hc : ∃ kind gate, c = .registerGate kind gate
  · obtain ⟨kind, gate, rfl⟩ := hc
    rw [gatesOf_registerGate]
    split
    · exact List.prefix_append _ _
    · exact List.prefix_rfl
  · rw [gatesOf_handle (fun kind gate h => hc ⟨kind, gate, h⟩)]

/-! ## Since the last evaluation -/

/-- The event begins an evaluation of the gates of `id`. -/
def evaluates (id : JobId) (e : SchedEvent) : Bool :=
  match e.cmd with
  | .readGates id' => decide (id' = id)
  | _ => false

/-- An operator moves `id`. -/
def rearms (id : JobId) (e : SchedEvent) : Bool :=
  match e.cmd with
  | .overwrite id' _ => decide (id' = id)
  | _ => false

/-- The state and the graph on which the gates of `id` were evaluated last. -/
def evaluation (w : World) (id : JobId) : List SchedEvent → Option (InProcessScheduler × Dag)
  | [] => none
  | e :: past =>
    if evaluates id e then some (e.pre, (viewOf w 0 past).pass.dag) else evaluation w id past

/-- An operator has moved `pred` since the gates of `id` were evaluated last. -/
def rearmedSince (id pred : JobId) : List SchedEvent → Bool
  | [] => false
  | e :: past => if evaluates id e then false else rearms pred e || rearmedSince id pred past

section

variable {id pred : JobId} {e : SchedEvent} {past : List SchedEvent}

theorem evaluation_cons_self (h : evaluates id e = true) :
    evaluation w id (e :: past) = some (e.pre, (viewOf w 0 past).pass.dag) := by
  simp only [evaluation, h, if_true]

theorem evaluation_cons (h : evaluates id e = false) :
    evaluation w id (e :: past) = evaluation w id past := by
  simp only [evaluation, h, Bool.false_eq_true, if_false]

theorem rearmedSince_cons (h : evaluates id e = false) :
    rearmedSince id pred (e :: past) = (rearms pred e || rearmedSince id pred past) := by
  simp only [rearmedSince, h, Bool.false_eq_true, if_false]

end

/-- What has turned against a Ready job `id` since its gates were evaluated: `s` is the state in which
it is to start, and `past` what was done before. -/
inductive Revoked (w : World) (id : JobId) (s : InProcessScheduler) (past : List SchedEvent) : Prop
  /-- A predecessor was re-armed and is not terminal again. -/
  | rearm (pred : JobId) (hpred : pred ∈ (viewOf w 0 past).pass.dag.predecessors id)
      (hrearmed : rearmedSince id pred past = true) (hphase : (s.phase pred).isTerminal = false)
  /-- The graph has got a predecessor that is not terminal. -/
  | edge (s₀ : InProcessScheduler) (dag₀ : Dag) (heval : evaluation w id past = some (s₀, dag₀))
      (pred : JobId) (hpred : pred ∈ (viewOf w 0 past).pass.dag.predecessors id)
      (hnew : pred ∉ dag₀.predecessors id) (hphase : (s.phase pred).isTerminal = false)
  /-- A gate was registered that blocks. -/
  | register (s₀ : InProcessScheduler) (dag₀ : Dag) (heval : evaluation w id past = some (s₀, dag₀))
      (gate : Gate) (hgate : gate ∈ (s.gatesOf id).drop (s₀.gatesOf id).length)
      (hblocks : s.blocks (viewOf w 0 past).pass.dag id gate = true)
  /-- A gate that let the job through has changed its mind. -/
  | flip (s₀ : InProcessScheduler) (dag₀ : Dag) (heval : evaluation w id past = some (s₀, dag₀))
      (gate : Gate) (hgate : gate ∈ s₀.gatesOf id) (hpassed : s₀.blocks dag₀ id gate = false)
      (hblocks : s.blocks (viewOf w 0 past).pass.dag id gate = true)

/-! ## The invariant -/

/-- What is known of the verdicts that are remembered. -/
structure Verdicts (w : World) (m : SchedMachine) : Prop where
  pure : ∀ id, ∀ gate ∈ m.state.gatesOf id, gate.Pure
  registry : ∀ id s₀ dag₀, evaluation w id m.log = some (s₀, dag₀) →
    s₀.gatesOf id <+: m.state.gatesOf id
  terminal : ∀ id s₀ dag₀, evaluation w id m.log = some (s₀, dag₀) → ∀ pred,
    (s₀.phase pred).isTerminal = true →
      (m.state.phase pred).isTerminal = true ∨ rearmedSince id pred m.log = true
  /-- The verdicts collected so far are those of the gates asked so far. -/
  consulting : ∀ id phase ctx ahead outcomes,
    (viewOf w 0 m.log).focus = .consulting id phase ctx ahead outcomes →
      ∃ s₀ asked, evaluation w id m.log = some (s₀, (viewOf w 0 m.log).pass.dag) ∧
        ctx = s₀.gateContext (viewOf w 0 m.log).pass.dag id ∧ s₀.gatesOf id = asked ++ ahead ∧
        outcomes = asked.map fun gate => gate.evaluate s₀.time ctx
  /-- A Ready job was let through when it was evaluated. -/
  ready : ∀ id, m.state.phase id = .ready →
    ∃ s₀ dag₀, evaluation w id m.log = some (s₀, dag₀) ∧ (s₀.cohort dag₀ id).Passes

/-- **A Ready job is let through now exactly when its verdict has not been revoked.** -/
theorem Verdicts.passes_iff {m : SchedMachine} (h : Verdicts w m) {id : JobId}
    (hready : m.state.phase id = .ready) :
    (m.state.cohort (viewOf w 0 m.log).pass.dag id).Passes ↔ ¬ Revoked w id m.state m.log := by
  obtain ⟨s₀, dag₀, heval, hpassed⟩ := h.ready id hready
  obtain ⟨hterminal₀, hgates₀⟩ := InProcessScheduler.cohort_passes_iff.mp hpassed
  rw [InProcessScheduler.cohort_passes_iff]
  constructor
  · rintro ⟨hterminal, hgates⟩ hrevoked
    cases hrevoked with
    | rearm pred hpred hrearmed hphase =>
      rw [hterminal pred hpred] at hphase
      exact Bool.noConfusion hphase
    | edge s₁ dag₁ heval₁ pred hpred hnew hphase =>
      rw [hterminal pred hpred] at hphase
      exact Bool.noConfusion hphase
    | register s₁ dag₁ heval₁ gate hgate hblocks =>
      rw [hgates gate (List.mem_of_mem_drop hgate)] at hblocks
      exact Bool.noConfusion hblocks
    | flip s₁ dag₁ heval₁ gate hgate hpassed₁ hblocks =>
      rw [hgates gate ((h.registry id s₁ dag₁ heval₁).subset hgate)] at hblocks
      exact Bool.noConfusion hblocks
  · intro hnot
    refine ⟨fun pred hpred => ?_, fun gate hgate => ?_⟩
    · by_contra hphase
      have hphase := Bool.eq_false_of_not_eq_true hphase
      by_cases hnew : pred ∈ dag₀.predecessors id
      · rcases h.terminal id s₀ dag₀ heval pred (hterminal₀ pred hnew) with hstays | hrearmed
        · rw [hstays] at hphase
          exact Bool.noConfusion hphase
        · exact hnot (.rearm pred hpred hrearmed hphase)
      · exact hnot (.edge s₀ dag₀ heval pred hpred hnew hphase)
    · by_contra hblocks
      have hblocks := Bool.eq_true_of_not_eq_false hblocks
      obtain ⟨new, hnew⟩ := h.registry id s₀ dag₀ heval
      rw [← hnew] at hgate
      rcases List.mem_append.mp hgate with hold | hadded
      · exact hnot (.flip s₀ dag₀ heval gate hold (hgates₀ gate hold) hblocks)
      · refine hnot (.register s₀ dag₀ heval gate ?_ hblocks)
        rwa [← hnew, List.drop_left]

/-! ## One step -/

/-- The calls of a run: operators re-arm, gates are pure, and nothing is restored. -/
def Call.rearmsOnly : Call → Prop
  | .operatorTransition _ target _ => target = .pending
  | .registerGate _ gate => gate.Pure
  | .restoreState _ => False
  | _ => True

/-- Gates are asked one after the other from where they were read. -/
theorem View.consulting_next {v : View} {s : InProcessScheduler} {c : Cmd} (hallows : v.Allows c)
    {id : JobId} {phase : JobPhase} {ctx : GateContext} {ahead : List Gate} {outcomes : List GateOutcome}
    (hnext : (v.next c (handle w c s).1).focus = .consulting id phase ctx ahead outcomes) :
    (v.next c (handle w c s).1).pass = v.pass ∧
      ((c = .readGates id ∧ ctx = s.gateContext v.pass.dag id ∧ ahead = s.gatesOf id ∧ outcomes = []) ∨
      (∃ gate asked, c = .consult gate ctx ∧ v.focus = .consulting id phase ctx (gate :: ahead) asked ∧
        outcomes = asked ++ [gate.evaluate s.time ctx]) ∨
      c = .now ∧ v.focus = .consulting id phase ctx ahead outcomes) := by
  obtain ⟨pass, focus⟩ := v
  cases c with
  | now =>
    refine ⟨rfl, .inr (.inr ⟨rfl, ?_⟩)⟩
    cases focus with
    | looked id' phase' => cases phase' <;> cases hnext
    | delayed id' after => cases hnext
    | _ => exact hnext
  | readGates id' =>
    have hlooked : focus = .looked id' .pending ∨ focus = .looked id' .gated := hallows
    rcases hlooked with rfl | rfl <;> cases hnext <;> exact ⟨rfl, .inl ⟨rfl, rfl, rfl, rfl⟩⟩
  | consult gate ctx' =>
    -- one gate moves from those ahead to those that have answered
    obtain ⟨id', phase', ahead', asked, rfl⟩ := hallows
    cases hnext
    exact ⟨rfl, .inr (.inl ⟨gate, asked, rfl, rfl, rfl⟩)⟩
  | dispatch id' signal =>
    have hdue : Due pass id' focus signal := hallows
    cases hanswer : (handle w (.dispatch id' signal) s).1 with
    | error e =>
      rw [hanswer] at hnext
      cases hnext
    | ok event =>
      rw [hanswer] at hnext
      cases hdue <;> cases hnext
  | tryAllocate id' =>
    cases hanswer : (handle w (.tryAllocate id') s).1 <;> rw [hanswer] at hnext <;> cases hnext
  | decide policy attempt history =>
    obtain ⟨id', rfl⟩ : ∃ id', focus = .judging id' policy attempt history := hallows
    cases hanswer : (handle w (.decide policy attempt history) s).1 <;> rw [hanswer] at hnext <;>
      cases hnext
  | runningOf wave =>
    cases hanswer : (handle w (.runningOf wave) s).1 <;> rw [hanswer] at hnext <;> cases hnext
  | lookupJob id' =>
    obtain ⟨ids, tasks, rfl⟩ : ∃ ids tasks, focus = .collecting (id' :: ids) tasks := hallows
    cases hnext
  | spawn id' job timeout =>
    obtain ⟨ids, tasks, rfl⟩ : ∃ ids tasks, focus = .fetched id' job timeout ids tasks := hallows
    cases hnext
  | recordFailure id' =>
    obtain ⟨results, rfl⟩ : ∃ results, focus = .applying ((id', .error ()) :: results) := hallows
    cases hnext
  | clearFailures id' =>
    obtain ⟨results, rfl⟩ : ∃ results, focus = .succeeded id' results := hallows
    cases hnext
  | release id' =>
    obtain ⟨results, rfl⟩ : ∃ results, focus = .releasing id' results := hallows
    cases hnext
  | overwrite id' phase' =>
    obtain ⟨source, rfl, -⟩ := hallows
    cases hnext
  | _ => cases hnext

/-- Only a gate verdict makes a job Ready. -/
theorem Due.of_ready {pass : Pass} {focus : Focus} {id : JobId} {signal : Signal} {phase : JobPhase}
    (hdue : Due pass id focus signal) (hadvance : advance phase signal = .ok .ready) :
    ∃ source ctx outcomes, focus = .consulting id source ctx [] outcomes ∧
      (cohortAggregate ctx outcomes).Passes := by
  cases hdue with
  | gates source ctx outcomes news =>
    obtain ⟨-, hready⟩ := advance_evaluateGates_iff.mp hadvance
    exact ⟨source, ctx, outcomes, rfl, GateAggregate.phase_eq_ready_iff.mp hready.symm⟩
  | backoff untilMs nowMs elapsed => simp [advance_backoffElapsed_iff] at hadvance
  | slot seeded => simp [advance_allocateBudget_iff] at hadvance
  | retry outcome => cases outcome <;> simp [advance_retryDecide_iff, RetryOutcome.phase] at hadvance
  | success results => simp [advance_executionSucceeded_iff] at hadvance
  | failure results => simp [advance_executionFailed_iff] at hadvance

section

variable {m : SchedMachine} (hs : Sequential w m) (h : Verdicts w m) {c : Cmd}
  (hallows : (viewOf w 0 m.log).Allows c)
  (hpermitted : c.Permitted Call.rearmsOnly (viewOf w 0 m.log).pass.dag)

include hs h hallows hpermitted

omit hs hallows in
theorem Verdicts.pure_step (id : JobId) : ∀ gate ∈ (handle w c m.state).2.gatesOf id, gate.Pure := by
  by_cases hc : ∃ kind gate, c = .registerGate kind gate
  · obtain ⟨kind, new, rfl⟩ := hc
    have hnew : new.Pure := hpermitted
    rw [gatesOf_registerGate]
    split
    · intro gate hgate
      rcases List.mem_append.mp hgate with hold | hadded
      · exact h.pure id gate hold
      · rwa [List.mem_singleton.mp hadded]
    · exact h.pure id
  · rw [gatesOf_handle (fun kind gate hgate => hc ⟨kind, gate, hgate⟩)]
    exact h.pure id

omit h hs in
/-- A terminal phase is left by an operator only. -/
theorem terminal_step {pred : JobId} (hpred : (m.state.phase pred).isTerminal = true) :
    ((handle w c m.state).2.phase pred).isTerminal = true ∨ rearms pred ⟨0, c, m.state⟩ = true := by
  rcases phase_handle w c m.state pred with hsame | ⟨signal, rfl, hadvance⟩ | hwrite | ⟨saved, rfl⟩
  · exact .inl (hsame ▸ hpred)
  · exact absurd hpred (by simp [Due.not_terminal hallows hadvance])
  · rw [hwrite]
    exact .inr (by simp [rearms])
  · exact hpermitted.elim

/-- A job that has just become Ready was let through by the gates that were asked. -/
theorem Verdicts.ready_step {id : JobId} (hready : (handle w c m.state).2.phase id = .ready) :
    ∃ s₀ dag₀, evaluation w id (m.step (handle w) 0 c).log = some (s₀, dag₀) ∧
      (s₀.cohort dag₀ id).Passes := by
  have hquiet : ∀ signal, c = .dispatch id signal → evaluates id ⟨0, c, m.state⟩ = false := by
    rintro signal rfl
    rfl
  rcases phase_handle w c m.state id with hsame | ⟨signal, hsignal, hadvance⟩ | hwrite | ⟨saved, rfl⟩
  · have hbefore : m.state.phase id = .ready := hsame.symm.trans hready
    have hnot : evaluates id ⟨0, c, m.state⟩ = false := by
      cases c with
      | readGates id' =>
        -- the gates are read of a Pending or Gated job only
        refine decide_eq_false fun hid => ?_
        subst hid
        have hagrees := hs.agrees
        rcases hallows with hfocus | hfocus <;> rw [hfocus] at hagrees <;>
          exact absurd ((hagrees (.inl True.intro)).symm.trans hbefore) (by simp)
      | _ => rfl
    rw [Machine.step, evaluation_cons hnot]
    exact h.ready id hbefore
  · rw [Machine.step, evaluation_cons (hquiet signal hsignal)]
    subst hsignal
    rw [hready] at hadvance
    obtain ⟨phase, ctx, outcomes, hfocus, hpasses⟩ := Due.of_ready hallows hadvance
    obtain ⟨s₀, asked, heval, rfl, hgates, rfl⟩ := h.consulting _ _ _ _ _ hfocus
    rw [List.append_nil] at hgates
    subst hgates
    exact ⟨s₀, _, heval, hpasses⟩
  · rw [hready] at hwrite
    subst hwrite
    obtain ⟨reason, hpending⟩ := hpermitted
    exact JobPhase.noConfusion hpending
  · exact hpermitted.elim

theorem Verdicts.step : Verdicts w (m.step (handle w) 0 c) := by
  have hgrows := fun id => gatesOf_grows (w := w) c m.state id
  refine
    { pure := h.pure_step hpermitted
      registry := fun id s₀ dag₀ heval => ?_
      terminal := fun id s₀ dag₀ heval pred hpred => ?_
      consulting := fun id phase ctx ahead outcomes hfocus => ?_
      ready := fun id hready => h.ready_step hs hallows hpermitted hready }
  · cases hevaluates : evaluates id ⟨0, c, m.state⟩ with
    | true =>
      rw [Machine.step, evaluation_cons_self hevaluates] at heval
      obtain ⟨rfl, -⟩ := Prod.mk.inj (Option.some.inj heval)
      exact hgrows id
    | false =>
      rw [Machine.step, evaluation_cons hevaluates] at heval
      exact (h.registry id s₀ dag₀ heval).trans (hgrows id)
  · cases hevaluates : evaluates id ⟨0, c, m.state⟩ with
    | true =>
      rw [Machine.step, evaluation_cons_self hevaluates] at heval
      obtain ⟨rfl, -⟩ := Prod.mk.inj (Option.some.inj heval)
      left
      cases c with
      | readGates id' =>
        rw [Machine.step, phase_of_not_moves w rfl]
        exact hpred
      | _ => exact Bool.noConfusion hevaluates
    | false =>
      rw [Machine.step, evaluation_cons hevaluates] at heval
      rw [Machine.step, rearmedSince_cons hevaluates, Bool.or_eq_true]
      rcases h.terminal id s₀ dag₀ heval pred hpred with hstays | hrearmed
      · exact (terminal_step hallows hpermitted hstays).imp_right .inl
      · exact .inr (.inr hrearmed)
  · rw [viewOf_step_self] at hfocus ⊢
    obtain ⟨hpass, hcases⟩ := View.consulting_next hallows hfocus
    rw [hpass]
    rcases hcases with ⟨rfl, rfl, rfl, rfl⟩ | ⟨gate, asked, rfl, hbefore, rfl⟩ | ⟨rfl, hbefore⟩
    · refine ⟨m.state, [], ?_, rfl, rfl, rfl⟩
      exact evaluation_cons_self (e := ⟨0, .readGates id, m.state⟩) (by simp [evaluates])
    · obtain ⟨s₀, before, heval, hctx, hgates, rfl⟩ := h.consulting _ _ _ _ _ hbefore
      refine ⟨s₀, before ++ [gate], (evaluation_cons rfl).trans heval, hctx, ?_, ?_⟩
      · rw [hgates, List.append_assoc]
        rfl
      · have hpure : gate.Pure := h.pure id gate
          ((h.registry id s₀ _ heval).subset (hgates ▸ List.mem_append_right _ List.mem_cons_self))
        rw [List.map_append, List.map_singleton, hpure m.state.time s₀.time]
    · obtain ⟨s₀, asked, heval, hctx, hgates, houtcomes⟩ := h.consulting _ _ _ _ _ hbefore
      exact ⟨s₀, asked, (evaluation_cons rfl).trans heval, hctx, hgates, houtcomes⟩

end

/-! ## The result -/

/-- The job that the event makes Running. -/
def startedBy (e : SchedEvent) : Option JobId :=
  match e.cmd with
  | .dispatch id .allocateBudget => some id
  | _ => none

/-- The gates of a job that starts let it through at this moment. -/
def StartPasses (w : World) (e : SchedEvent) (past : List SchedEvent) : Prop :=
  ∀ id ∈ startedBy e, (e.pre.cohort (viewOf w 0 past).pass.dag id).Passes

instance (w : World) (e : SchedEvent) (past : List SchedEvent) : Decidable (StartPasses w e past) :=
  inferInstanceAs (Decidable (∀ id ∈ startedBy e, _))

/-- No verdict is revoked on which a job starts. -/
def StartStands (w : World) (e : SchedEvent) (past : List SchedEvent) : Prop :=
  ∀ id ∈ startedBy e, ¬ Revoked w id e.pre past

/-- A start is one of a Ready job. -/
theorem ready_of_startedBy {m : SchedMachine} (hs : Sequential w m) {c : Cmd}
    (hallows : (viewOf w 0 m.log).Allows c) {id : JobId} (hid : id ∈ startedBy ⟨0, c, m.state⟩) :
    m.state.phase id = .ready := by
  cases c with
  | dispatch id' signal =>
    cases signal with
    | allocateBudget =>
      obtain rfl : id' = id := Option.some.inj hid
      obtain ⟨target, hadvance⟩ := View.Consistent.advance hs hallows
      exact (advance_allocateBudget_iff.mp hadvance).1
    | _ => cases hid
  | _ => cases hid

/-- **When a job starts with the consent of its gates.** On every run in which operators re-arm jobs,
gates are pure and nothing is restored, each start of a job finds its cohort, evaluated at this moment
on the graph of the tick, all passed or vacuous exactly when the verdict on which the job became Ready
has not been revoked. -/
theorem start_passes_iff (w : World) (tool : String) {calls : List Call}
    (hcalls : ∀ call ∈ calls, call.rearmsOnly) :
    Meets (fun e past => StartPasses w e past ↔ StartStands w e past)
      (runCalls w calls (InProcessScheduler.new tool).start).log := by
  have hstart : Verdicts w (InProcessScheduler.new tool).start :=
    { pure := fun id gate hgate => absurd hgate List.not_mem_nil
      registry := fun id s₀ dag₀ heval => by cases heval
      terminal := fun id s₀ dag₀ heval => by cases heval
      consulting := fun id phase ctx ahead outcomes hfocus => Focus.noConfusion hfocus
      ready := fun id hready => JobPhase.noConfusion hready }
  have hrun := runCalls_induct
    (J := fun m => Verdicts w m ∧
      Meets (fun e past => StartPasses w e past ↔ StartStands w e past) m.log)
    (fun m c hs hm hallows hpermitted => by
      refine ⟨hm.1.step hs hallows hpermitted, meets_cons.mpr ⟨?_, hm.2⟩⟩
      apply forall₂_congr
      intro id hid
      exact hm.1.passes_iff (ready_of_startedBy hs hallows hid))
    hcalls (Sequential.start w _) (Resting.start w _) ⟨hstart, meets_nil _⟩
  exact hrun.1.2

namespace Sample

/-- Jobs `b`, `c` and `d` depend on job `a`. -/
def fan : Dag := ["b", "c", "d"].foldl
  (fun dag name => (dag.ensureNode (jobId name)).addEdge (jobId "a") (jobId name)) (single "a")

/-- With one slot, and `a` deadlettered at its first failure: tick, re-arm `a`, tick. -/
def rearmedUpstream : List Call :=
  [.installBudget oneSlot, .registerJob (job "a" .err), .registerJob (job "b" .ok),
    .registerJob (job "c" .ok), .registerJob (job "d" .ok), .tick fan,
    .operatorTransition (jobId "a") .pending (.operatorAction "again"), .tick fan]

end Sample

/-- Job `d` waits in Ready for a slot while `a` is re-armed, and starts before `a` does. -/
theorem start_against_gates :
    let m := runCalls Sample.world Sample.rearmedUpstream (InProcessScheduler.new "t").start
    ¬ Meets (StartPasses Sample.world) m.log ∧
    ∃ e ∈ m.log, startedBy e = some (Sample.jobId "d") ∧
      e.pre.cohort Sample.fan (Sample.jobId "d") = .someWaiting ∧
      e.pre.phase (Sample.jobId "a") = .ready := by
  decide +kernel

/-- On a chain of two jobs nothing is revoked. -/
theorem start_passes_chain :
    Meets (StartStands Sample.world) (runCalls Sample.world (Sample.onceOn Sample.chain .err .ok)
      (InProcessScheduler.new "t").start).log := by
  have hcalls : ∀ call ∈ Sample.onceOn Sample.chain .err .ok, call.rearmsOnly := by
    simp [Sample.onceOn, Call.rearmsOnly]
  have hpasses : Meets (StartPasses Sample.world) (runCalls Sample.world
      (Sample.onceOn Sample.chain .err .ok) (InProcessScheduler.new "t").start).log := by
    decide +kernel
  intro e past hlog
  exact (start_passes_iff Sample.world "t" hcalls e past hlog).mp (hpasses e past hlog)

end Shigoto
