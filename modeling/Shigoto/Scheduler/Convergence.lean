import Mathlib.Algebra.Order.BigOperators.Group.List
import Shigoto.Cohort
import Shigoto.Scheduler.Journal
import Shigoto.Scheduler.Progress
import Shigoto.Scheduler.Retries
import Shigoto.Summary

/-!
# Every run comes to an end

Under a budget with room for one job anywhere, each tick that finds a job left spends something of a job: it
executes it, or its gates skip it. What can be spent of a job is what its policy allows, so the ticks on a graph
run out of work after as many of them as its jobs are allowed failures, all together.

This needs that gates do not wait, that executions return, and that the backoffs are over when a tick begins.
-/

namespace Shigoto

open Atomic

variable {w : World} {m m₁ m₂ m' : SchedMachine} {dag : Dag} {transitions : List TransitionEvent}
  {wave ids ids' : List JobId} {id : JobId}

/-! ## What holds no job back -/

/-- No registered gate ever waits. -/
def SchedulerState.Prompt (state : SchedulerState) : Prop :=
  ∀ kind, ∀ gate ∈ (state.gates.get? kind).getD [], ∀ time ctx, gate.evaluate time ctx ≠ .wait

theorem SchedulerState.SameSetup.prompt {state state' : SchedulerState} (h : state.SameSetup state')
    (hprompt : state.Prompt) : state'.Prompt := by
  intro kind gate hgate
  exact hprompt kind gate (h.gates ▸ hgate)

/-- Every execution returns. -/
def SchedulerState.Returns (state : SchedulerState) : Prop :=
  ∀ id time, (state.taskOf id time).result.isSome = true

theorem SchedulerState.SameSetup.returns {state state' : SchedulerState} (h : state.SameSetup state')
    (hreturns : state.Returns) : state'.Returns := by
  intro id time
  rw [h.taskOf]
  exact hreturns id time

/-- No signal makes a job wait for its operator. -/
theorem advance_ne_waitingForOperator {phase target : JobPhase} {signal : Signal}
    (h : advance phase signal = .ok target) : target ≠ .waitingForOperator := by
  rintro rfl
  cases signal with
  | evaluateGates aggregate =>
    have htarget := (advance_evaluateGates_iff.mp h).2
    cases aggregate <;> cases htarget
  | allocateBudget => cases (advance_allocateBudget_iff.mp h).2
  | executionSucceeded => cases (advance_executionSucceeded_iff.mp h).2
  | executionFailed => cases (advance_executionFailed_iff.mp h).2
  | retryDecide outcome =>
    have htarget := (advance_retryDecide_iff.mp h).2
    cases outcome <;> cases htarget
  | backoffElapsed => cases (advance_backoffElapsed_iff.mp h).2
  | operatorTransition target =>
    obtain ⟨rfl, ⟨-, htarget | ⟨reason, htarget⟩⟩ | ⟨-, htarget⟩⟩ := advance_operatorTransition h <;>
      cases htarget
  | cancel => cases phase <;> cases h
  | timeout => cases phase <;> cases h

/-! ## What is spent -/

/-- The results of a job, and its being skipped. -/
def spent (w : World) (id : JobId) (m : SchedMachine) : Nat :=
  (resultsOf id (runs w m.log)).length + if (m.state.phase id).isSkipped then 1 else 0

/-- Some jobs of `ids` have gone on; those that were terminal have not moved. -/
structure Onward (w : World) (ids : List JobId) (m m' : SchedMachine) : Prop where
  others : ∀ id, id ∉ ids ∨ (m.state.phase id).isTerminal = true → m'.state.phase id = m.state.phase id
  runs : runs w m.log <+: runs w m'.log
  setup : m.state.state.SameSetup m'.state.state

namespace Onward

theorem refl (ids : List JobId) (m : SchedMachine) : Onward w ids m m :=
  ⟨fun _ _ => rfl, List.prefix_rfl, .refl _⟩

theorem trans (h : Onward w ids m m₁) (h' : Onward w ids m₁ m₂) : Onward w ids m m₂ := by
  refine ⟨fun id hid => ?_, h.runs.trans h'.runs, h.setup.trans h'.setup⟩
  have hsame := h.others id hid
  rw [h'.others id (hsame.symm ▸ hid), hsame]

theorem mono (h : Onward w ids m m') (hsub : ids ⊆ ids') : Onward w ids' m m' :=
  ⟨fun id hid => h.others id (hid.imp_left fun hnot hmem => hnot (hsub hmem)), h.runs, h.setup⟩

theorem of_drove (h : Drove w ids m m') : Onward w ids m m' :=
  ⟨fun id hid => h.others id (hid.imp_right .inr), h.runs ▸ List.prefix_rfl, h.setup⟩

theorem of_executed {tasks : List Task} (h : Executed w (m.state.runningOf ids) tasks m m') :
    Onward w ids m m' := by
  refine ⟨fun id hid => h.others id fun hmem => ?_, h.runs ▸ List.prefix_append _ _, h.setup⟩
  obtain ⟨hids, hrunning⟩ := InProcessScheduler.mem_runningOf.mp hmem
  rcases hid with hnot | hterminal
  · exact hnot hids
  · rw [hrunning] at hterminal
    cases hterminal

theorem skipped (h : Onward w ids m m') (hskipped : (m.state.phase id).isSkipped = true) :
    m'.state.phase id = m.state.phase id := by
  apply h.others id
  right
  cases hphase : m.state.phase id with
  | skipped reason => rfl
  | _ =>
    rw [hphase] at hskipped
    cases hskipped

theorem results_le (h : Onward w ids m m') (id : JobId) :
    (resultsOf id (Shigoto.runs w m.log)).length ≤ (resultsOf id (Shigoto.runs w m'.log)).length := by
  obtain ⟨tasks, htasks⟩ := h.runs
  rw [← htasks, resultsOf_append, List.length_append]
  exact Nat.le_add_right _ _

/-- Nothing that was spent is given back. -/
theorem spent_le (h : Onward w ids m m') : spent w id m ≤ spent w id m' := by
  have hresults := h.results_le id
  unfold spent
  by_cases hskipped : (m.state.phase id).isSkipped = true
  · rw [h.skipped hskipped]
    omega
  · rw [if_neg hskipped]
    omega

end Onward

/-! ## Time passes -/

/-- Nothing has happened but that time has passed. -/
structure Passed (w : World) (m m' : SchedMachine) : Prop extends Still m m' where
  runs : runs w m'.log = runs w m.log
  setup : m.state.state.SameSetup m'.state.state
  time : m.state.time ≤ m'.state.time

namespace Passed

theorem refl (m : SchedMachine) : Passed w m m := ⟨⟨fun _ => rfl, rfl⟩, rfl, .refl _, le_rfl⟩

theorem trans (h : Passed w m m₁) (h' : Passed w m₁ m₂) : Passed w m m₂ :=
  ⟨h.toStill.trans h'.toStill, h'.runs.trans h.runs, h.setup.trans h'.setup, h.time.trans h'.time⟩

theorem onward (h : Passed w m m') (ids : List JobId) : Onward w ids m m' :=
  ⟨fun id _ => h.phase id, h.runs ▸ List.prefix_rfl, h.setup⟩

/-- A command that registers and starts nothing. -/
theorem step {c : Cmd} (hmoves : c.moves = false) (hspawn : ∀ id job timeout, c ≠ .spawn id job timeout)
    (hbudget : (handle w c m.state).2.budget = m.state.budget)
    (hsetup : m.state.state.SameSetup (handle w c m.state).2.state) :
    Passed w m (m.step (handle w) 0 c) :=
  ⟨⟨phase_of_not_moves w hmoves m.state, hbudget⟩, runs_cons_of_ne hspawn 0 m.state m.log, hsetup,
    Nat.le_succ _⟩

end Passed

/-- Driving does nothing to a job at its end. -/
theorem wp_drive_ended (hterminal : (m.state.phase id).isTerminal = true) (bound : Nat) :
    wp (handle w) 0 (drive dag id bound transitions) (fun _ m' => Passed w m m') (fun _ _ => False) m := by
  cases bound with
  | zero => exact .refl m
  | succ bound =>
    have hpassed : Passed w m (m.step (handle w) 0 (.phaseOf id)) := .step rfl (by simp) rfl (.refl _)
    apply wp_perform_bind.mpr
    have hanswer : (handle w (.phaseOf id) m.state).1 = m.state.phase id := rfl
    rw [hanswer]
    cases hphase : m.state.phase id with
    | succeeded => exact hpassed
    | skipped reason => exact hpassed
    | deadlettered => exact hpassed
    | _ =>
      rw [hphase] at hterminal
      cases hterminal

theorem wp_pass1_ended (wave : List JobId) (hterminal : ∀ id ∈ wave, (m.state.phase id).isTerminal = true) :
    wp (handle w) 0 (pass1 dag wave transitions) (fun _ m' => Passed w m m') (fun _ _ => False) m := by
  induction wave generalizing m transitions with
  | nil => exact .refl m
  | cons id wave ih =>
    obtain ⟨hid, hrest⟩ := List.forall_mem_cons.mp hterminal
    have hseed : Passed w m (m.step (handle w) 0 (.seed id)) := .step rfl (by simp) rfl ⟨rfl, rfl, rfl, rfl⟩
    apply wp_perform_bind.mpr
    apply wp_bind.mpr
    refine wp_mono (wp_drive_ended (hseed.phase id ▸ hid) 6) (fun transitions₂ m₂ h₂ => ?_) fun _ _ he => he
    have hpassed := hseed.trans h₂
    refine wp_mono (ih fun id' hid' => hpassed.phase id' ▸ hrest id' hid') (fun _ m' h' => ?_) fun _ _ he => he
    exact hpassed.trans h'

theorem wp_pass2_ended (hidle : ∀ id ∈ wave, m.state.phase id ≠ .running) :
    wp (handle w) 0 (pass2 wave transitions) (fun _ m' => Passed w m m') (fun _ _ => False) m := by
  have hnone : m.state.runningOf wave = [] := List.eq_nil_iff_forall_not_mem.mpr fun id hid =>
    hidle id (InProcessScheduler.mem_runningOf.mp hid).1 (InProcessScheduler.mem_runningOf.mp hid).2
  have hanswer : (handle w (.runningOf wave) m.state).1 = [] := hnone
  apply wp_perform_bind.mpr
  rw [hanswer]
  exact .step rfl (by simp) rfl (.refl _)

theorem wp_pass3_ended (wave : List JobId) (hterminal : ∀ id ∈ wave, (m.state.phase id).isTerminal = true) :
    wp (handle w) 0 (pass3 dag wave transitions) (fun _ m' => Passed w m m') (fun _ _ => False) m := by
  induction wave generalizing m transitions with
  | nil => exact .refl m
  | cons id wave ih =>
    obtain ⟨hid, hrest⟩ := List.forall_mem_cons.mp hterminal
    apply wp_bind.mpr
    refine wp_mono (wp_drive_ended hid 3) (fun transitions₁ m₁ h₁ => ?_) fun _ _ he => he
    refine wp_mono (ih fun id' hid' => h₁.phase id' ▸ hrest id' hid') (fun _ m' h' => ?_) fun _ _ he => he
    exact h₁.trans h'

/-! ## A job that nothing holds back -/

/-- Nothing holds `id` back: its predecessors are at their end, no gate waits, there is a slot for it, and
its backoff is over from now on. -/
structure Able (w : World) (dag : Dag) (id : JobId) (m : SchedMachine) : Prop where
  supported : Supported dag m.state id
  prompt : m.state.state.Prompt
  slack : m.state.budget.HasSlack id
  rested : ∀ untilMs, m.state.phase id = .retrying untilMs → ∀ t, m.state.time ≤ t → ¬ w.clock t < untilMs

/-- The job was started, or skipped. -/
def Begun (id : JobId) (s : InProcessScheduler) : Prop :=
  s.phase id = .running ∨ (s.phase id).isSkipped = true

/-- What keeps `id` able: it has moved itself, and to a phase that does not wait for the clock. -/
theorem Able.moved (h : Able w dag id m) (hopen : (m.state.phase id).isTerminal = false)
    (hothers : ∀ id', id' ≠ id → m'.state.phase id' = m.state.phase id')
    (hphase : ∀ untilMs, m'.state.phase id ≠ .retrying untilMs)
    (hbudget : m'.state.budget = m.state.budget) (hsetup : m.state.state.SameSetup m'.state.state) :
    Able w dag id m' := by
  refine ⟨fun pred hpred => ?_, hsetup.prompt h.prompt, hbudget.symm ▸ h.slack,
    fun untilMs hid => absurd hid (hphase untilMs)⟩
  have hterminal := h.supported pred hpred
  have hne : pred ≠ id := by
    rintro rfl
    exact Bool.noConfusion (hopen.symm.trans hterminal)
  rwa [hothers pred hne]

theorem Passed.able (hpassed : Passed w m m') (h : Able w dag id m) : Able w dag id m' := by
  refine ⟨hpassed.toStill.supported.mpr h.supported, hpassed.setup.prompt h.prompt,
    hpassed.budget.symm ▸ h.slack, fun untilMs hphase t ht => ?_⟩
  exact h.rested untilMs (hpassed.phase id ▸ hphase) t (hpassed.time.trans ht)

theorem Onward.begun {s : InProcessScheduler} (hbegun : Begun id s)
    (hsame : s.phase id = .running ∨ (s.phase id).isTerminal = true → m'.state.phase id = s.phase id) :
    Begun id m'.state := by
  have hkept : m'.state.phase id = s.phase id := by
    refine hsame (hbegun.imp_right fun hskipped => ?_)
    cases hphase : s.phase id with
    | skipped reason => rfl
    | _ =>
      rw [hphase] at hskipped
      cases hskipped
  rw [Begun, hkept]
  exact hbegun

/-- Asking changes nothing but the time. -/
theorem passed_of_asks {c : Cmd} (hc : c.asks ids) : Passed w m (m.step (handle w) 0 c) := by
  cases c with
  | readGates id => exact .step rfl (by simp) rfl (.refl _)
  | readRetry id => exact .step rfl (by simp) rfl (.refl _)
  | now => exact .step rfl (by simp) rfl (.refl _)
  | consult gate ctx => exact .step rfl (by simp) rfl (.refl _)
  | decide policy attempt history => exact .step rfl (by simp) rfl (.refl _)
  | _ => exact hc.elim

/-- The verdicts of gates that do not wait. -/
theorem wp_consultAll_prompt {ctx : GateContext} {gates : List Gate} {outcomes : List GateOutcome}
    (hgates : ∀ gate ∈ gates, ∀ time ctx, gate.evaluate time ctx ≠ .wait) (houtcomes : .wait ∉ outcomes) :
    wp (handle w) 0 (consultAll ctx gates outcomes) (fun outcomes' _ => .wait ∉ outcomes')
      (fun _ _ => False) m := by
  induction gates generalizing m outcomes with
  | nil => exact houtcomes
  | cons gate gates ih =>
    obtain ⟨hgate, hrest⟩ := List.forall_mem_cons.mp hgates
    apply wp_perform_bind.mpr
    apply ih hrest
    rw [List.mem_append, not_or, List.mem_singleton]
    exact ⟨houtcomes, Ne.symm (hgate m.state.time ctx)⟩

/-- A job whose predecessors are at their end is made Ready or skipped. -/
theorem wp_evaluateGates_prompt (hprompt : m.state.state.Prompt) (hsupported : Supported dag m.state id) :
    wp (handle w) 0 (evaluateGates id dag) (fun aggregate m' => aggregate ≠ .someWaiting ∧ Passed w m m')
      (fun _ _ => False) m := by
  have hpassed := Issues.wp (h := handle w) (t := 0) (m := m) (J := Passed w m)
    (issues_evaluateGates (F := fun _ => False) (List.mem_singleton_self id) dag)
    (fun m' c hm' hc => hm'.trans (passed_of_asks hc)) (.refl m)
  refine wp_mono (wp_and (Q := fun aggregate _ => aggregate ≠ .someWaiting) (E := fun _ _ => False) ?_
    hpassed) (fun aggregate m' h => h) fun _ _ he => he.1
  apply wp_perform_bind.mpr
  apply wp_bind.mpr
  have hgates : ∀ gate ∈ (handle w (.readGates id) m.state).1.1, ∀ time ctx, gate.evaluate time ctx ≠ .wait :=
    hprompt id.kind
  refine wp_mono (wp_consultAll_prompt hgates List.not_mem_nil) (fun outcomes m' houtcomes => ?_)
    fun _ _ he => he
  show cohortAggregate _ outcomes ≠ .someWaiting
  intro hwaiting
  obtain ⟨-, hmem⟩ := (reduced _).someWaiting.mp hwaiting
  rcases List.mem_cons.mp hmem with hwait | hwait
  · have hopen : (AllUpstreamsTerminal.evaluate ⟨id, ⟨m.state.state.phases⟩, dag⟩).blocking = false :=
      AllUpstreamsTerminal.evaluate_blocking_iff.mpr hsupported
    have hwaits : AllUpstreamsTerminal.evaluate ⟨id, ⟨m.state.state.phases⟩, dag⟩ = .wait := hwait.symm
    rw [hwaits] at hopen
    cases hopen
  · exact houtcomes hwait

/-- One round of the loop: a step, and then the rest of the rounds. -/
theorem wp_drive_succ {bound : Nat} {Q : List TransitionEvent → SchedMachine → Prop}
    {E : SchedulerError → SchedMachine → Prop} (hnot : m.state.phase id ≠ .running)
    (hstep : wp (handle w) 0 (advanceOnce id (m.state.phase id) dag transitions)
      (fun r m' => r.1 = true ∧ wp (handle w) 0 (drive dag id bound r.2) Q E m') E
      (m.step (handle w) 0 (.phaseOf id))) :
    wp (handle w) 0 (drive dag id (bound + 1) transitions) Q E m := by
  apply wp_perform_bind.mpr
  have hanswer : (handle w (.phaseOf id) m.state).1 = m.state.phase id := rfl
  rw [hanswer, if_neg hnot]
  apply wp_bind.mpr
  refine wp_mono hstep ?_ fun _ _ he => he
  rintro ⟨progressed, transitions'⟩ m' ⟨rfl, hrest⟩
  exact hrest

theorem wp_drive_running (hrunning : m.state.phase id = .running) (bound : Nat) :
    wp (handle w) 0 (drive dag id bound transitions) (fun _ m' => Begun id m'.state) (fun _ _ => False) m := by
  cases bound with
  | zero => exact .inl hrunning
  | succ bound =>
    apply wp_perform_bind.mpr
    have hanswer : (handle w (.phaseOf id) m.state).1 = .running := hrunning
    rw [hanswer, if_pos rfl]
    exact .inl hrunning

/-- A Ready job is started. -/
theorem wp_drive_ready (h : Able w dag id m) (hready : m.state.phase id = .ready) (bound : Nat) :
    wp (handle w) 0 (drive dag id (bound + 1) transitions) (fun _ m' => Begun id m'.state)
      (fun _ _ => False) m := by
  apply wp_drive_succ (by simp [hready])
  set m₁ := m.step (handle w) 0 (.phaseOf id) with hm₁
  have hslack : m₁.state.budget.HasSlack id := h.slack
  have hstep := wp_advanceOnce_ready (w := w) dag transitions (show m₁.state.phase id = .ready from hready)
  rw [decide_eq_true hslack] at hstep
  rw [hready]
  refine wp_mono hstep ?_ fun _ _ he => he
  rintro ⟨progressed, transitions'⟩ m₂ ⟨hprogressed, hwalked, -⟩
  exact ⟨hprogressed, wp_drive_running hwalked.phase_self bound⟩

/-- A job whose gates are asked is made Ready and started, or skipped. -/
theorem wp_drive_gates (h : Able w dag id m)
    (hphase : m.state.phase id = .pending ∨ m.state.phase id = .gated) (bound : Nat) :
    wp (handle w) 0 (drive dag id (bound + 2) transitions) (fun _ m' => Begun id m'.state)
      (fun _ _ => False) m := by
  have hopen : (m.state.phase id).evaluable = true ∧ (m.state.phase id).isTerminal = false ∧
      m.state.phase id ≠ .running := by
    rcases hphase with hphase | hphase <;> rw [hphase] <;> simp [JobPhase.evaluable, JobPhase.isTerminal]
  apply wp_drive_succ hopen.2.2
  set m₁ := m.step (handle w) 0 (.phaseOf id) with hm₁
  have hpassed₁ : Passed w m m₁ := .step rfl (by simp) rfl (.refl _)
  have h₁ := hpassed₁.able h
  -- whichever of the two phases it is, the aggregate is sent
  have hsend : wp (handle w) 0 (evaluateGates id dag) (fun aggregate m' => wp (handle w) 0 (do
        let transitions ← dispatch id (.evaluateGates aggregate) transitions
        return (true, transitions))
      (fun r m'' => r.1 = true ∧ wp (handle w) 0 (drive dag id (bound + 1) r.2)
        (fun _ m' => Begun id m'.state) (fun _ _ => False) m'') (fun _ _ => False) m' ∧
        aggregate ≠ .someWaiting) (fun _ _ => False) m₁ := by
    refine wp_mono (wp_evaluateGates_prompt h₁.prompt h₁.supported) ?_ fun _ _ he => he
    rintro aggregate m₂ ⟨hgo, hpassed₂⟩
    refine ⟨?_, hgo⟩
    have hpassed := hpassed₁.trans hpassed₂
    have hadvance : advance (m₂.state.phase id) (.evaluateGates aggregate) = .ok aggregate.phase :=
      advance_evaluateGates_iff.mpr ⟨hpassed.phase id ▸ hopen.1, rfl⟩
    apply wp_bind.mpr
    apply (wp_dispatch hadvance).mpr
    refine ⟨rfl, ?_⟩
    set m₃ := m₂.step (handle w) 0 (.dispatch id (.evaluateGates aggregate)) with hm₃
    have hself : m₃.state.phase id = aggregate.phase := (phase_dispatch_ok w hadvance id).trans (if_pos rfl)
    cases aggregate with
    | someWaiting => exact absurd rfl hgo
    | skipped reason =>
      have hended : (m₃.state.phase id).isTerminal = true := by rw [hself]; rfl
      refine wp_mono (wp_drive_ended hended (bound + 1)) (fun _ m' hpassed' => .inr ?_) fun _ _ he => he
      rw [hpassed'.phase, hself]
      rfl
    | _ =>
      refine wp_drive_ready (h.moved hopen.2.1 (fun id' hne => ?_) ?_ ?_ ?_) hself bound
      · exact ((phase_dispatch_ok w hadvance id').trans (if_neg hne)).trans (hpassed.phase id')
      · simp [hself, GateAggregate.phase]
      · exact (dispatch_frame w id _ m₂.state).1.trans hpassed.budget
      · exact hpassed.setup.trans (sameSetup_dispatch id _ m₂.state)
  rcases hphase with hphase | hphase
  · rw [hphase]
    apply wp_bind.mpr
    refine wp_mono hsend (fun aggregate m₂ h₂ => ?_) fun _ _ he => he
    rw [if_neg (by simp)]
    exact h₂.1
  · rw [hphase]
    apply wp_bind.mpr
    refine wp_mono hsend (fun aggregate m₂ h₂ => ?_) fun _ _ he => he
    rw [if_neg (by simp [h₂.2])]
    exact h₂.1

/-- A job whose backoff is over is made Pending, and then as above. -/
theorem wp_drive_backoff (h : Able w dag id m) {untilMs : Int64}
    (hphase : m.state.phase id = .retrying untilMs) (bound : Nat) :
    wp (handle w) 0 (drive dag id (bound + 3) transitions) (fun _ m' => Begun id m'.state)
      (fun _ _ => False) m := by
  apply wp_drive_succ (by simp [hphase])
  set m₁ := m.step (handle w) 0 (.phaseOf id) with hm₁
  rw [hphase]
  apply wp_perform_bind.mpr
  set m₂ := m₁.step (handle w) 0 .now with hm₂
  have hpassed : Passed w m m₂ :=
    .trans (.step rfl (by simp) rfl (.refl _)) (.step rfl (by simp) rfl (.refl _))
  have helapsed : ¬ (handle w .now m₁.state).1 < untilMs := h.rested untilMs hphase _ (Nat.le_succ _)
  rw [if_neg helapsed]
  have hadvance : advance (m₂.state.phase id) .backoffElapsed = .ok .pending :=
    advance_backoffElapsed_iff.mpr ⟨⟨untilMs, hphase⟩, rfl⟩
  apply wp_bind.mpr
  apply (wp_dispatch hadvance).mpr
  refine ⟨rfl, ?_⟩
  have hself := (phase_dispatch_ok w hadvance id).trans (if_pos rfl)
  refine wp_drive_gates (h.moved (by rw [hphase]; rfl) (fun id' hne => ?_) ?_ ?_ ?_) (.inl hself) bound
  · exact (phase_dispatch_ok w hadvance id').trans (if_neg hne)
  · intro untilMs' hretrying
    cases hself.symm.trans hretrying
  · exact (dispatch_frame w id _ m₂.state).1.trans hpassed.budget
  · exact hpassed.setup.trans (sameSetup_dispatch id _ m₂.state)

/-- A phase in which a job is left to be driven between two ticks. -/
def JobPhase.left : JobPhase → Bool
  | .pending | .gated | .ready | .retrying _ => true
  | _ => false

/-- **A job that nothing holds back is started or skipped** in the six steps that PASS 1 gives it. -/
theorem wp_drive_able (h : Able w dag id m) (hleft : (m.state.phase id).left = true) :
    wp (handle w) 0 (drive dag id 6 transitions) (fun _ m' => Begun id m'.state) (fun _ _ => False) m := by
  cases hphase : m.state.phase id with
  | pending => exact wp_drive_gates h (.inl hphase) 4
  | gated => exact wp_drive_gates h (.inr hphase) 4
  | ready => exact wp_drive_ready h hphase 5
  | retrying untilMs => exact wp_drive_backoff h hphase 3
  | _ =>
    rw [hphase] at hleft
    cases hleft

/-! ## Waves -/

theorem wp_runWaves_onward (dag : Dag) (transitions : List TransitionEvent) {waves : List (List JobId)}
    (hnodup : ∀ wave ∈ waves, wave.Nodup) :
    wp (handle w) 0 (runWaves dag waves transitions) (fun _ m' => Onward w waves.flatten m m')
      (fun e _ => e.refusal) m := by
  induction waves generalizing m transitions with
  | nil => exact .refl _ m
  | cons wave waves ih =>
    obtain ⟨hwave, hrest⟩ := List.forall_mem_cons.mp hnodup
    have hsub : wave ⊆ (wave :: waves).flatten := List.flatten_cons ▸ List.subset_append_left _ _
    have hsub' : waves.flatten ⊆ (wave :: waves).flatten := List.flatten_cons ▸ List.subset_append_right _ _
    apply wp_bind.mpr
    refine wp_mono (wp_drives (issues_pass1 dag wave transitions)) (fun transitions₁ m₁ h₁ => ?_)
      fun _ _ he => he.1
    apply wp_bind.mpr
    refine wp_mono (wp_pass2 hwave) ?_ fun _ _ he => he.elim
    rintro transitions₂ m₂ ⟨tasks, new, h₂, -⟩
    apply wp_bind.mpr
    refine wp_mono (wp_drives (issues_pass3 dag wave transitions₂)) (fun transitions₃ m₃ h₃ => ?_)
      fun _ _ he => he.1
    refine wp_mono (ih transitions₃ hrest) (fun _ m' h' => ?_) fun _ _ he => he
    have hwhole := ((Onward.of_drove h₁).trans (.of_executed h₂)).trans (.of_drove h₃)
    exact (hwhole.mono hsub).trans (h'.mono hsub')

/-- PASS 2 executes a job that was started. -/
theorem wp_pass2_spends (hwave : wave.Nodup) (hid : id ∈ wave) (hreturns : m.state.state.Returns)
    (hbegun : Begun id m.state) :
    wp (handle w) 0 (pass2 wave transitions)
      (fun _ m' => Onward w wave m m' ∧ (resultsOf id (runs w m.log)).length < spent w id m')
      (fun e _ => e.refusal) m := by
  refine wp_mono (wp_pass2 hwave) ?_ fun _ _ he => he.elim
  rintro transitions₁ m₁ ⟨tasks, new, hexecuted, -⟩
  have honward : Onward w wave m m₁ := .of_executed hexecuted
  refine ⟨honward, ?_⟩
  rcases hbegun with hrunning | hskipped
  · obtain ⟨task, htask, rfl⟩ := List.mem_map.mp
      (hexecuted.ran.map_id.symm ▸ InProcessScheduler.mem_runningOf.mpr ⟨hid, hrunning⟩)
    obtain ⟨time, htime⟩ := hexecuted.ran.of_mem htask
    obtain ⟨result, hresult⟩ := Option.isSome_iff_exists.mp (hreturns task.id time)
    have hnodup : (tasks.map (·.id)).Nodup := hexecuted.ran.map_id.symm ▸ hwave.filter _
    unfold spent
    rw [hexecuted.runs, resultsOf_append, resultsOf_of_mem hnodup htask, htime, SchedulerState.taskOf_id,
      hresult, List.length_append]
    exact Nat.lt_of_lt_of_le (Nat.lt_succ_self _) (Nat.le_add_right _ _)
  · have hresults := honward.results_le id
    rw [spent, honward.skipped hskipped, if_pos hskipped]
    omega

/-- **A wave spends something of a job that PASS 1 starts.** -/
theorem wp_runWaves_spends {waves : List (List JobId)} (hnodup : ∀ wave' ∈ wave :: waves, wave'.Nodup)
    (hid : id ∈ wave) (hreturns : m.state.state.Returns) (hskipped : (m.state.phase id).isSkipped = false)
    (hbegun : wp (handle w) 0 (pass1 dag wave transitions) (fun _ m₁ => Begun id m₁.state)
      (fun e _ => e.refusal) m) :
    wp (handle w) 0 (runWaves dag (wave :: waves) transitions) (fun _ m' => spent w id m < spent w id m')
      (fun e _ => e.refusal) m := by
  obtain ⟨hwave, hrest⟩ := List.forall_mem_cons.mp hnodup
  apply wp_bind.mpr
  refine wp_mono (wp_and hbegun (wp_drives (issues_pass1 dag wave transitions))) ?_ fun _ _ he => he.1
  rintro transitions₁ m₁ ⟨hbegun₁, hdrove⟩
  apply wp_bind.mpr
  refine wp_mono (wp_pass2_spends hwave hid (hdrove.setup.returns hreturns) hbegun₁) ?_ fun _ _ he => he
  rintro transitions₂ m₂ ⟨h₂, hspent⟩
  apply wp_bind.mpr
  refine wp_mono (wp_drives (issues_pass3 dag wave transitions₂)) (fun transitions₃ m₃ h₃ => ?_)
    fun _ _ he => he.1
  refine wp_mono (wp_runWaves_onward dag transitions₃ hrest) (fun _ m' h' => ?_) fun _ _ he => he
  have hbefore : spent w id m = (resultsOf id (runs w m₁.log)).length := by
    rw [spent, hskipped, hdrove.runs]
    rfl
  have hpass3 : spent w id m₂ ≤ spent w id m₃ := (Onward.of_drove h₃).spent_le
  have hwaves : spent w id m₃ ≤ spent w id m' := h'.spent_le
  omega

/-- The job is Running when its wave begins. -/
theorem wp_runWaves_running (dag : Dag) (transitions : List TransitionEvent) {waves : List (List JobId)}
    (hnodup : waves.flatten.Nodup)
    (hid : id ∈ waves.flatten) (hreturns : m.state.state.Returns) (hrunning : m.state.phase id = .running) :
    wp (handle w) 0 (runWaves dag waves transitions) (fun _ m' => spent w id m < spent w id m')
      (fun e _ => e.refusal) m := by
  induction waves generalizing m transitions with
  | nil => exact absurd hid List.not_mem_nil
  | cons wave waves ih =>
    have hwaves := (List.nodup_flatten.mp hnodup).1
    by_cases hwave : id ∈ wave
    · refine wp_runWaves_spends hwaves hwave hreturns (by rw [hrunning]; rfl) ?_
      refine wp_mono (wp_drives (issues_pass1 dag wave transitions)) (fun _ m₁ h₁ => .inl ?_)
        fun _ _ he => he.1
      rw [h₁.others id (.inr (.inl hrunning))]
      exact hrunning
    · rw [List.flatten_cons] at hnodup hid
      have hrest := (List.nodup_append'.mp hnodup).2.1
      have hmem := (List.mem_append.mp hid).resolve_left hwave
      apply wp_bind.mpr
      refine wp_mono (wp_drives (issues_pass1 dag wave transitions)) (fun transitions₁ m₁ h₁ => ?_)
        fun _ _ he => he.1
      apply wp_bind.mpr
      refine wp_mono (wp_pass2 (List.forall_mem_cons.mp hwaves).1) ?_ fun _ _ he => he.elim
      rintro transitions₂ m₂ ⟨tasks, new, h₂, -⟩
      apply wp_bind.mpr
      refine wp_mono (wp_drives (issues_pass3 dag wave transitions₂)) (fun transitions₃ m₃ h₃ => ?_)
        fun _ _ he => he.1
      have honward := ((Onward.of_drove h₁).trans (.of_executed h₂)).trans (.of_drove h₃)
      have hsame := honward.others id (.inl hwave)
      refine wp_mono (ih transitions₃ hrest hmem (honward.setup.returns hreturns) (hsame.trans hrunning))
        (fun _ m' h' => ?_) fun _ _ he => he
      exact honward.spent_le.trans_lt h'

/-- Between two ticks no job is Running, every slot is free, and every backoff is over. -/
structure AtEase (w : World) (m : SchedMachine) : Prop where
  prompt : m.state.state.Prompt
  returns : m.state.state.Returns
  slack : ∀ id, m.state.budget.HasSlack id
  phases : ∀ id, (m.state.phase id).isTerminal = true ∨ (m.state.phase id).left = true
  rested : ∀ id untilMs, m.state.phase id = .retrying untilMs →
    ∀ t, m.state.time ≤ t → ¬ w.clock t < untilMs

theorem Passed.atEase (hpassed : Passed w m m') (h : AtEase w m) : AtEase w m' := by
  refine ⟨hpassed.setup.prompt h.prompt, hpassed.setup.returns h.returns, fun id => ?_, fun id => ?_,
    fun id untilMs hphase t ht => ?_⟩
  · exact hpassed.budget.symm ▸ h.slack id
  · rw [hpassed.phase]
    exact h.phases id
  · exact h.rested id untilMs (hpassed.phase id ▸ hphase) t (hpassed.time.trans ht)

theorem JobPhase.not_terminal_of_left {phase : JobPhase} (h : phase.left = true) :
    phase.isTerminal = false ∧ phase.isSkipped = false ∧ phase ≠ .running := by
  cases phase <;> simp_all [JobPhase.left, JobPhase.isTerminal, JobPhase.isSkipped]

/-- PASS 1 starts the first job of a wave that is left. -/
theorem wp_pass1_begins {before after : List JobId} (h : AtEase w m)
    (hbefore : ∀ id ∈ before, (m.state.phase id).isTerminal = true)
    (hleft : (m.state.phase id).left = true) (hsupported : Supported dag m.state id) :
    wp (handle w) 0 (pass1 dag (before ++ id :: after) transitions) (fun _ m' => Begun id m'.state)
      (fun e _ => e.refusal) m := by
  apply wp_pass1_append.mpr
  refine wp_mono (wp_pass1_ended before hbefore) (fun transitions₁ m₁ h₁ => ?_) fun _ _ he => he.elim
  apply wp_perform_bind.mpr
  set m₂ := m₁.step (handle w) 0 (.seed id) with hm₂
  have hpassed : Passed w m m₂ := h₁.trans (.step rfl (by simp) rfl ⟨rfl, rfl, rfl, rfl⟩)
  have hable : Able w dag id m := ⟨hsupported, h.prompt, h.slack id, h.rested id⟩
  apply wp_bind.mpr
  refine wp_mono (wp_drive_able (hpassed.able hable) (hpassed.phase id ▸ hleft)) (fun transitions₃ m₃ h₃ => ?_)
    fun _ _ he => he.elim
  refine wp_mono (wp_drives (issues_pass1 dag after transitions₃)) (fun _ m₄ hdrove => ?_) fun _ _ he => he.1
  exact Onward.begun h₃ fun hkept => hdrove.others id (.inr hkept)

/-- **When no job is Running, the waves spend something of the first job that is left.** -/
theorem wp_runWaves_atEase {waves : List (List JobId)} {done : JobId → Prop}
    (transitions : List TransitionEvent) (hlayered : dag.Layered done waves) (hnodup : waves.flatten.Nodup)
    (h : AtEase w m) (hdone : ∀ id, done id → (m.state.phase id).isTerminal = true)
    (hleft : ∃ id ∈ waves.flatten, (m.state.phase id).isTerminal = false) :
    wp (handle w) 0 (runWaves dag waves transitions)
      (fun _ m' => ∃ id ∈ waves.flatten, spent w id m < spent w id m') (fun e _ => e.refusal) m := by
  induction waves generalizing m transitions done with
  | nil =>
    obtain ⟨id, hid, -⟩ := hleft
    exact absurd hid List.not_mem_nil
  | cons wave waves ih =>
    by_cases hall : ∀ id ∈ wave, (m.state.phase id).isTerminal = true
    · -- nothing happens in this wave
      rw [List.flatten_cons] at hnodup hleft ⊢
      have hidle : ∀ m', Passed w m m' → ∀ id ∈ wave, m'.state.phase id ≠ .running := by
        intro m' hpassed id hid hrunning
        have hended := hpassed.phase id ▸ hall id hid
        rw [hrunning] at hended
        cases hended
      apply wp_bind.mpr
      refine wp_mono (wp_pass1_ended wave hall) (fun transitions₁ m₁ h₁ => ?_) fun _ _ he => he.elim
      apply wp_bind.mpr
      refine wp_mono (wp_pass2_ended (hidle m₁ h₁)) (fun transitions₂ m₂ h₂ => ?_) fun _ _ he => he.elim
      have hpassed₂ := h₁.trans h₂
      apply wp_bind.mpr
      refine wp_mono (wp_pass3_ended wave fun id hid => hpassed₂.phase id ▸ hall id hid)
        (fun transitions₃ m₃ h₃ => ?_) fun _ _ he => he.elim
      have hpassed := hpassed₂.trans h₃
      have hdone₃ : ∀ id, done id ∨ id ∈ wave → (m₃.state.phase id).isTerminal = true := fun id hid => by
        rw [hpassed.phase]
        exact hid.elim (hdone id) (hall id)
      have hleft₃ : ∃ id ∈ waves.flatten, (m₃.state.phase id).isTerminal = false := by
        obtain ⟨id, hid, hopen⟩ := hleft
        refine ⟨id, (List.mem_append.mp hid).resolve_left fun hmem => ?_, hpassed.phase id ▸ hopen⟩
        exact Bool.noConfusion (hopen.symm.trans (hall id hmem))
      refine wp_mono (ih transitions₃ hlayered.2 (List.nodup_append'.mp hnodup).2.1 (hpassed.atEase h) hdone₃
        hleft₃) ?_ fun _ _ he => he
      rintro _ m' ⟨id, hid, hspent⟩
      exact ⟨id, List.mem_append_right _ hid, (hpassed.onward []).spent_le.trans_lt hspent⟩
    · -- the first job of the wave that is left
      obtain ⟨id, before, after, rfl, hbefore, hopen⟩ := exists_first_left hall
      have hmem : id ∈ before ++ id :: after := by simp
      have hsupported : Supported dag m.state id := fun pred hpred =>
        hdone pred (hlayered.1 id hmem pred hpred)
      have hphase : (m.state.phase id).left = true :=
        (h.phases id).resolve_left fun hended => Bool.noConfusion (hopen.symm.trans hended)
      refine wp_mono (wp_runWaves_spends (List.nodup_flatten.mp hnodup).1 hmem h.returns
        (JobPhase.not_terminal_of_left hphase).2.1 (wp_pass1_begins h hbefore hphase hsupported))
        (fun _ m' hspent => ?_) fun _ _ he => he
      exact ⟨id, List.mem_flatten.mpr ⟨_, List.mem_cons_self, hmem⟩, hspent⟩

/-! ## Ticks -/

/-- **What a tick spends**: something of a job of the graph, if one is left and nothing holds it back. -/
theorem wp_tick_spends (hbuilt : dag.Built) (hsort : w.toposort.Sorts dag.graph) (hacyclic : ¬ dag.Cyclic)
    (hreturns : m.state.state.Returns) (houtside : ∀ id, id ∉ dag.graph.ids → m.state.phase id = .pending) :
    wp (handle w) 0 (tick dag)
      (fun _ m' => Onward w dag.graph.ids m m' ∧
        (((∀ id, m.state.phase id ≠ .running) → AtEase w m) →
          (∃ id ∈ dag.graph.ids, (m.state.phase id).isTerminal = false) →
          ∃ id ∈ dag.graph.ids, spent w id m < spent w id m'))
      (fun e _ => e.refusal) m := by
  refine wp_tick_acyclic hbuilt hsort hacyclic fun ws hlayered hperm hnodup => ?_
  set m₁ := (m.step (handle w) 0 .now).step (handle w) 0 (.waves dag) with hm₁
  have hpassed : Passed w m m₁ :=
    .trans (.step rfl (by simp) rfl (.refl _)) (.step rfl (by simp) rfl (.refl _))
  have hwaves := (List.nodup_flatten.mp hnodup).1
  have honward := wp_runWaves_onward (w := w) (m := m₁) dag [] hwaves
  -- the two commands at the end of a tick spend nothing
  have hlast : ∀ m', Passed w m' ((m'.step (handle w) 0 .snapshotInner).step (handle w) 0 .hashOrder) :=
    fun m' => .trans (.step rfl (by simp) rfl (.refl _)) (.step rfl (by simp) rfl (.refl _))
  have hwhole : ∀ m', Onward w ws.flatten m₁ m' → Onward w dag.graph.ids m
      ((m'.step (handle w) 0 .snapshotInner).step (handle w) 0 .hashOrder) := fun m' h =>
    ((hpassed.onward _).trans (h.mono hperm.subset)).trans ((hlast m').onward _)
  have hspends : ∀ m' id, spent w id m₁ < spent w id m' → spent w id m <
      spent w id ((m'.step (handle w) 0 .snapshotInner).step (handle w) 0 .hashOrder) := fun m' id h =>
    ((hpassed.onward []).spent_le.trans_lt h).trans_le ((hlast m').onward []).spent_le
  by_cases hrunning : ∃ id, m.state.phase id = .running
  · -- a job that is Running now is executed in its wave
    obtain ⟨id, hid⟩ := hrunning
    have hnode : id ∈ dag.graph.ids := by
      by_contra hnot
      rw [houtside id hnot] at hid
      cases hid
    have hspent := wp_runWaves_running (w := w) (m := m₁) dag [] hnodup
      (hperm.mem_iff.mpr hnode) (hpassed.setup.returns hreturns) ((hpassed.phase id).trans hid)
    refine wp_mono (wp_and honward hspent) ?_ fun _ _ he => he.1
    rintro _ m' ⟨h', hmore⟩
    exact ⟨hwhole m' h', fun _ _ => ⟨id, hnode, hspends m' id hmore⟩⟩
  · by_cases hleft : AtEase w m ∧ ∃ id ∈ ws.flatten, (m₁.state.phase id).isTerminal = false
    · have hspent := wp_runWaves_atEase (w := w) [] hlayered hnodup (hpassed.atEase hleft.1)
        (fun id hid => hid.elim) hleft.2
      refine wp_mono (wp_and honward hspent) ?_ fun _ _ he => he.1
      rintro _ m' ⟨h', id, hid, hmore⟩
      exact ⟨hwhole m' h', fun _ _ => ⟨id, hperm.mem_iff.mp hid, hspends m' id hmore⟩⟩
    · refine wp_mono honward (fun _ m' h' => ⟨hwhole m' h', fun hease hopens => ?_⟩) fun _ _ he => he
      obtain ⟨id, hid, hopen⟩ := hopens
      exact absurd ⟨hease fun id hid => hrunning ⟨id, hid⟩, id, hperm.mem_iff.mpr hid,
        hpassed.phase id ▸ hopen⟩ hleft

/-- What is spent of a job is within its allowance, and less than that while the job is left. -/
theorem Calm.spent_le {limit : Nat} (h : Calm w id limit m) :
    spent w id m ≤ limit ∧ ((m.state.phase id).isTerminal = false → spent w id m < limit) := by
  obtain ⟨⟨-, hresults, hstanding, -⟩, hcalm⟩ := h
  unfold spent
  rw [hresults]
  cases hphase : m.state.phase id with
  | succeeded =>
    rw [hphase] at hstanding
    simpa [JobPhase.isSkipped, JobPhase.isTerminal] using Nat.succ_le_of_lt hstanding
  | skipped reason =>
    rw [hphase] at hstanding
    simpa [JobPhase.isSkipped, JobPhase.isTerminal] using Nat.succ_le_of_lt hstanding
  | deadlettered =>
    rw [hphase] at hstanding
    simpa [JobPhase.isSkipped, JobPhase.isTerminal] using hstanding.le
  | failed n =>
    rw [hphase] at hcalm
    cases hcalm
  | _ =>
    rw [hphase] at hstanding
    have hless : (recordsOf w id m.log).length < limit := hstanding
    simpa [JobPhase.isSkipped] using ⟨hless.le, fun _ => hless⟩

/-- Between two ticks on one graph. -/
structure Going (w : World) (dag : Dag) (limit : JobId → Nat) (m : SchedMachine) : Prop where
  calm : ∀ id ∈ dag.graph.ids, Calm w id (limit id) m
  outside : ∀ id, id ∉ dag.graph.ids → m.state.phase id = .pending
  unasked : ∀ id, m.state.phase id ≠ .waitingForOperator
  prompt : m.state.state.Prompt
  returns : m.state.state.Returns

theorem Call.live_of_registers {call : Call} (h : call.registers = true) : call.live := by
  cases call with
  | restoreState saved => cases h
  | _ => exact True.intro

/-- Without restores no job ever waits for its operator. -/
theorem never_waitingForOperator {calls : List Call} (hcalls : ∀ call ∈ calls, call.live)
    {s : InProcessScheduler} (hs : ∀ id, s.phase id ≠ .waitingForOperator) (id : JobId) :
    (runCalls w calls s.start).state.phase id ≠ .waitingForOperator := by
  have hrun := runCalls_induct (w := w) (J := fun m => ∀ id, m.state.phase id ≠ .waitingForOperator)
    (fun m c hsound hm hallows hc => ?_) hcalls (Sequential.start w s) (Resting.start w s) hs
  · exact hrun.1 id
  · intro id hid
    have hid' : (handle w c m.state).2.phase id = .waitingForOperator := hid
    rcases phase_handle w c m.state id with hsame | ⟨signal, rfl, hadvance⟩ | hoverwrite | ⟨saved, rfl⟩
    · exact hm id (hsame.symm.trans hid')
    · exact advance_ne_waitingForOperator hadvance hid'
    · rw [hid'] at hoverwrite
      rw [hoverwrite] at hallows
      obtain ⟨source, -, hadvance⟩ := hallows
      exact advance_ne_waitingForOperator hadvance rfl
    · exact hc

theorem Calm.left {limit : Nat} (h : Calm w id limit m) (hunasked : m.state.phase id ≠ .waitingForOperator)
    (hidle : m.state.phase id ≠ .running) :
    (m.state.phase id).isTerminal = true ∨ (m.state.phase id).left = true := by
  have hcalm := h.2
  cases hphase : m.state.phase id with
  | running => exact absurd hphase hidle
  | failed n =>
    rw [hphase] at hcalm
    cases hcalm
  | waitingForOperator => exact absurd hphase hunasked
  | pending | gated | ready | retrying untilMs => exact .inr rfl
  | _ => exact .inl rfl

/-- The backoffs of the jobs of the graph are over, from now on. -/
def Rested (w : World) (dag : Dag) (m : SchedMachine) : Prop :=
  ∀ id ∈ dag.graph.ids, ∀ untilMs, m.state.phase id = .retrying untilMs →
    ∀ t, m.state.time ≤ t → ¬ w.clock t < untilMs

namespace Going

variable {limit : JobId → Nat}

theorem atEase (h : Going w dag limit m) (hslack : ∀ id, m.state.budget.HasSlack id)
    (hrested : Rested w dag m) (hidle : ∀ id, m.state.phase id ≠ .running) : AtEase w m := by
  refine ⟨h.prompt, h.returns, hslack, fun id => ?_, fun id untilMs hphase => ?_⟩
  · by_cases hid : id ∈ dag.graph.ids
    · exact (h.calm id hid).left (h.unasked id) (hidle id)
    · rw [h.outside id hid]
      exact .inr rfl
  · apply hrested id _ untilMs hphase
    by_contra hid
    rw [h.outside id hid] at hphase
    cases hphase

theorem tick (h : Going w dag limit m) (hbuilt : dag.Built) (hsort : w.toposort.Sorts dag.graph)
    (hacyclic : ¬ dag.Cyclic)
    (hunasked : ∀ id, ((Shigoto.tick dag).exec (handle w) 0 m).2.state.phase id ≠ .waitingForOperator) :
    let m' := ((Shigoto.tick dag).exec (handle w) 0 m).2
    Going w dag limit m' ∧ Onward w dag.graph.ids m m' ∧
      (((∀ id, m.state.phase id ≠ .running) → AtEase w m) →
        (∃ id ∈ dag.graph.ids, (m.state.phase id).isTerminal = false) →
        ∃ id ∈ dag.graph.ids, spent w id m < spent w id m') := by
  intro m'
  have hspec := wp_iff_exec.mp (wp_tick_spends hbuilt hsort hacyclic h.returns h.outside)
  cases hend : ((Shigoto.tick dag).exec (handle w) 0 m).1 with
  | error e => exact absurd (hspec.2 e hend) (tick_not_refused dag m e hend)
  | ok receipt =>
    obtain ⟨honward, hspends⟩ := hspec.1 receipt hend
    refine ⟨⟨fun id hid => (h.calm id hid).tick dag, fun id hid => ?_, hunasked,
      honward.setup.prompt h.prompt, honward.setup.returns h.returns⟩, honward, hspends⟩
    exact (honward.others id (.inl hid)).trans (h.outside id hid)

/-- After the registrations every job is Pending. -/
theorem start (w : World) (tool : String) (b : BudgetTree) {setup : List Call}
    (hsetup : ∀ call ∈ setup, call.registers = true)
    (hprompt : (runCalls w setup (InProcessScheduler.new tool).start).state.state.Prompt)
    (hreturns : (runCalls w setup (InProcessScheduler.new tool).start).state.state.Returns)
    (hlimit : ∀ id ∈ dag.graph.ids, ((runCalls w setup
      (InProcessScheduler.new tool).start).state.state.policyOf id.kind).allowance = some (limit id)) :
    Going w dag limit (runCalls w (.installBudget b :: setup) (InProcessScheduler.new tool).start) := by
  have hprepares : ∀ call ∈ Call.installBudget b :: setup, call.prepares = true :=
    List.forall_mem_cons.mpr ⟨rfl, fun call hcall => Call.prepares_of_registers (hsetup call hcall)⟩
  have hunstarted := (Unstarted.new w tool).prepared hprepares
  have hstate : (runCalls w (.installBudget b :: setup) (InProcessScheduler.new tool).start).state.state =
      (runCalls w setup (InProcessScheduler.new tool).start).state.state :=
    state_of_registers hsetup rfl
  refine ⟨fun id hid => hunstarted.calm (hstate.symm ▸ hlimit id hid), fun id _ => hunstarted.phase id,
    fun id => ?_, hstate.symm ▸ hprompt, hstate.symm ▸ hreturns⟩
  rw [hunstarted.phase]
  simp

end Going

/-! ## Allowances -/

/-- Some things have an allowance each, of which `spent k` is gone after `k` steps. It does not come back, some is
left while the thing is open, and what is closed stays closed. -/
structure Spending {ι : Type} (ids : List ι) (limit : ι → Nat) (spent : Nat → ι → Nat)
    (isOpen : Nat → ι → Prop) : Prop where
  grows : ∀ k, ∀ i ∈ ids, spent k i ≤ spent (k + 1) i
  within : ∀ k, ∀ i ∈ ids, spent k i ≤ limit i
  left : ∀ k, ∀ i ∈ ids, isOpen k i → spent k i < limit i
  stays : ∀ k, ∀ i, isOpen (k + 1) i → isOpen k i

namespace Spending

variable {ι : Type} {ids : List ι} {limit : ι → Nat} {spent : Nat → ι → Nat} {isOpen : Nat → ι → Prop} {k : Nat}

/-- What is open now was open before. -/
theorem open_of_le (h : Spending ids limit spent isOpen) {j : Nat} (hj : j ≤ k) {i : ι} (hopen : isOpen k i) :
    isOpen j i := by
  induction hj using Nat.decreasingInduction with
  | self => exact hopen
  | of_succ j _ ih => exact h.stays j i ih

/-- While something is open, each step spends something. -/
theorem le_sum (h : Spending ids limit spent isOpen)
    (hspends : ∀ j < k, ∃ i ∈ ids, spent j i < spent (j + 1) i) {j : Nat} (hj : j ≤ k) :
    j ≤ (ids.map (spent j)).sum := by
  induction j with
  | zero => exact Nat.zero_le _
  | succ j ih =>
    have hgrows : (ids.map (spent j)).sum < (ids.map (spent (j + 1))).sum :=
      List.sum_lt_sum _ _ (h.grows j) (hspends j hj)
    exact (Nat.succ_le_succ (ih (Nat.le_of_succ_le hj))).trans hgrows

/-- **After as many steps as there is to spend, all is closed**, if each step spends something while something is
open. -/
theorem closed (h : Spending ids limit spent isOpen)
    (hspends : ∀ j < k, (∃ i ∈ ids, isOpen j i) → ∃ i ∈ ids, spent j i < spent (j + 1) i)
    (hk : (ids.map limit).sum ≤ k) {i : ι} (hi : i ∈ ids) : ¬ isOpen k i := by
  intro hopen
  have hcount := h.le_sum (fun j hj => hspends j hj ⟨i, hi, h.open_of_le hj.le hopen⟩) le_rfl
  have hless : (ids.map (spent k)).sum < (ids.map limit).sum :=
    List.sum_lt_sum _ _ (h.within k) ⟨i, hi, h.left k i hi hopen⟩
  exact absurd (hcount.trans_lt hless) hk.not_gt

end Spending

/-! ## Tick after tick -/

/-- A fresh scheduler after its budget and its registrations, and then `k` ticks on one graph. -/
def ticked (w : World) (tool : String) (b : BudgetTree) (setup : List Call) (dag : Dag) (k : Nat) :
    SchedMachine :=
  runCalls w (.installBudget b :: setup ++ List.replicate k (.tick dag)) (InProcessScheduler.new tool).start

section

variable {tool : String} {b : BudgetTree} {setup : List Call} {limit : JobId → Nat}
  (hsetup : ∀ call ∈ setup, call.registers = true)

theorem ticked_succ (k : Nat) : ticked w tool b setup dag (k + 1) =
    ((Shigoto.tick dag).exec (handle w) 0 (ticked w tool b setup dag k)).2 := by
  rw [ticked, List.replicate_succ', ← List.append_assoc, runCalls_append]
  exact exec_discard _ _

include hsetup

/-- The caps hold and the counters are right after any number of ticks. -/
theorem withinBudget_ticked (hidle : b.Idle) (k : Nat) :
    WithinBudget w b.cap (ticked w tool b setup dag k) ∧ Resting w (ticked w tool b setup dag k) := by
  have hcalls : ∀ call ∈ setup ++ List.replicate k (.tick dag), call.ordinary = true := by
    intro call hcall
    rcases List.mem_append.mp hcall with hmem | hmem
    · exact Call.ordinary_of_registers (hsetup call hmem)
    · rw [List.eq_of_mem_replicate hmem]
      rfl
  have hstart : Sequential w ((InProcessScheduler.new tool).start.step (handle w) 0 (.installBudget b)) :=
    (Sequential.start w (InProcessScheduler.new tool)).step ⟨rfl, rfl⟩
  exact runCalls_withinBudget hcalls hstart ⟨rfl, rfl⟩ (WithinBudget.install hidle tool)

theorem unasked_ticked (k : Nat) (id : JobId) :
    (ticked w tool b setup dag k).state.phase id ≠ .waitingForOperator := by
  refine never_waitingForOperator (fun call hcall => ?_) (by simp [InProcessScheduler.new,
    InProcessScheduler.phase, phaseIn]) id
  rcases List.mem_append.mp hcall with hmem | hmem
  · rcases List.mem_cons.mp hmem with rfl | hmem
    · exact True.intro
    · exact Call.live_of_registers (hsetup call hmem)
  · rw [List.eq_of_mem_replicate hmem]
    exact True.intro

/-- One more tick, which spends something if there is something left and all backoffs are over. -/
theorem Going.ticked_succ {k : Nat} (h : Going w dag limit (ticked w tool b setup dag k)) (hidle : b.Idle)
    (hcaps : ∀ d c, b.cap d = some c → 1 ≤ c) (hbuilt : dag.Built) (hsort : w.toposort.Sorts dag.graph)
    (hacyclic : ¬ dag.Cyclic) :
    let m := ticked w tool b setup dag k
    let m' := ticked w tool b setup dag (k + 1)
    Going w dag limit m' ∧ Onward w dag.graph.ids m m' ∧ (Rested w dag m →
      (∃ id ∈ dag.graph.ids, (m.state.phase id).isTerminal = false) →
      ∃ id ∈ dag.graph.ids, spent w id m < spent w id m') := by
  intro m m'
  have hbudget : WithinBudget w b.cap m ∧ Resting w m := withinBudget_ticked hsetup hidle k
  have hunasked : ∀ id, m'.state.phase id ≠ .waitingForOperator := unasked_ticked hsetup (k + 1)
  simp only [m', Shigoto.ticked_succ] at hunasked ⊢
  obtain ⟨hgoing, honward, hspends⟩ := h.tick hbuilt hsort hacyclic hunasked
  refine ⟨hgoing, honward, fun hrested => hspends fun hnone => ?_⟩
  exact h.atEase (hbudget.1.slack_of_idle hbudget.2 hcaps hnone) hrested hnone

end

/-! ## The result -/

/-- **Every run comes to an end.** On a fresh scheduler whose gates do not wait, whose jobs return and whose
policies have limits, with a budget of caps of at least one: each tick on the graph that finds a job left, and
all backoffs over, executes a job or skips one; and after as many such ticks as the jobs are allowed failures,
all together, every job is at its end. -/
theorem ticks_converge (w : World) (tool : String) {b : BudgetTree} (hidle : b.Idle)
    (hcaps : ∀ d c, b.cap d = some c → 1 ≤ c) {setup : List Call}
    (hsetup : ∀ call ∈ setup, call.registers = true) {dag : Dag} (hbuilt : dag.Built)
    (hsort : w.toposort.Sorts dag.graph) (hacyclic : ¬ dag.Cyclic) (limit : JobId → Nat) :
    let ready := (runCalls w setup (InProcessScheduler.new tool).start).state.state
    let run := fun k => runCalls w (.installBudget b :: setup ++ List.replicate k (.tick dag))
      (InProcessScheduler.new tool).start
    ready.Prompt → ready.Returns →
    (∀ id ∈ dag.graph.ids, (ready.policyOf id.kind).allowance = some (limit id)) →
    (∀ k, Rested w dag (run k) → (∃ id ∈ dag.graph.ids, ((run k).state.phase id).isTerminal = false) →
      ∃ id ∈ dag.graph.ids, spent w id (run k) < spent w id (run (k + 1))) ∧
    ∀ k, (∀ j < k, Rested w dag (run j)) → (dag.graph.ids.map limit).sum ≤ k →
      ∀ id ∈ dag.graph.ids, ((run k).state.phase id).isTerminal = true := by
  intro ready run hprompt hreturns hlimit
  have hgoing : ∀ k, Going w dag limit (run k) := by
    intro k
    induction k with
    | zero => simpa [run] using Going.start w tool b hsetup hprompt hreturns hlimit
    | succ k ih => exact (ih.ticked_succ hsetup hidle hcaps hbuilt hsort hacyclic).1
  have hstep := fun k => ((hgoing k).ticked_succ hsetup hidle hcaps hbuilt hsort hacyclic).2
  have hspending : Spending dag.graph.ids limit (fun k id => spent w id (run k))
      fun k id => ((run k).state.phase id).isTerminal = false := {
    grows := fun k id _ => (hstep k).1.spent_le
    within := fun k id hid => ((hgoing k).calm id hid).spent_le.1
    left := fun k id hid => ((hgoing k).calm id hid).spent_le.2
    stays := fun k id hopen => Bool.eq_false_of_not_eq_true fun hended => by
      have hsame : (run (k + 1)).state.phase id = (run k).state.phase id := (hstep k).1.others id (.inr hended)
      rw [hsame] at hopen
      exact Bool.noConfusion (hopen.symm.trans hended) }
  refine ⟨fun k => (hstep k).2, fun k hrested hk id hid => ?_⟩
  have hclosed := hspending.closed (fun j hj => (hstep j).2 (hrested j hj)) hk hid
  simpa using hclosed

namespace Sample

/-- Two attempts for every job, of which only `c` succeeds. -/
def persistent : List Call :=
  [.registerRetryPolicy (jobId "a" : JobId).kind (.fixed 2 5), .registerJob (job "a" .err),
   .registerJob (job "b" .err), .registerJob (job "c" .ok)]

/-- A clock that has moved on when the second tick begins, and when the third does. -/
def coarseWorld : World :=
  { agedWorld with clock := fun t => if t < 45 then 0 else if t < 100 then 10 else 20 }

/-- Where the jobs are after `k` ticks. -/
def persisting (k : Nat) : SchedMachine :=
  runCalls coarseWorld (.installBudget oneSlot :: persistent ++ List.replicate k (.tick detour))
    (InProcessScheduler.new "t").start

end Sample

theorem returns_persistent : (runCalls Sample.coarseWorld Sample.persistent
    (InProcessScheduler.new "t").start).state.state.Returns := by
  intro id time
  unfold SchedulerState.taskOf
  split
  · next job hget =>
    have hjobs : Map.get? ((((∅ : Map JobId ErasedJob).insert (Sample.jobId "a") (Sample.job "a" .err)).insert
        (Sample.jobId "b") (Sample.job "b" .err)).insert (Sample.jobId "c") (Sample.job "c" .ok)) id =
        some job := hget
    rw [Map.get?_insert, Map.get?_insert, Map.get?_insert] at hjobs
    split at hjobs
    · obtain rfl := Option.some.inj hjobs
      rfl
    · split at hjobs
      · obtain rfl := Option.some.inj hjobs
        rfl
      · split at hjobs
        · obtain rfl := Option.some.inj hjobs
          rfl
        · cases hjobs
  · rfl

theorem rested_persisting : ∀ k < 6, Rested Sample.coarseWorld Sample.detour (Sample.persisting k) := by
  have hphases : ∀ k < 6, ∀ id ∈ Sample.detour.graph.ids,
      (Sample.persisting k).state.phase id = .retrying 5 ∧ 45 ≤ (Sample.persisting k).state.time ∨
      (Sample.persisting k).state.phase id = .retrying 15 ∧ 100 ≤ (Sample.persisting k).state.time ∨
      (Sample.persisting k).state.phase id ∈ [.pending, .gated, .deadlettered, .succeeded] := by
    decide +kernel
  intro k hk id hid untilMs hphase t ht
  show ¬ (if t < 45 then 0 else if t < 100 then 10 else 20 : Int64) < untilMs
  rcases hphases k hk id hid with ⟨hphase', htime⟩ | ⟨hphase', htime⟩ | hphase'
  · obtain rfl : untilMs = 5 := JobPhase.retrying.inj (hphase.symm.trans hphase')
    rw [if_neg (Nat.not_lt.mpr (htime.trans ht))]
    split <;> decide
  · obtain rfl : untilMs = 15 := JobPhase.retrying.inj (hphase.symm.trans hphase')
    have hlate := htime.trans ht
    rw [if_neg (by omega), if_neg (by omega)]
    decide
  · rw [hphase] at hphase'
    simp at hphase'

/-- Three jobs in a row: the first two are retried once each, and six ticks are more than enough. -/
theorem ticks_converge_persistent :
    (Sample.persisting 1).state.phase (Sample.jobId "a") = .retrying 5 ∧
    ∀ id ∈ Sample.detour.graph.ids, ((Sample.persisting 6).state.phase id).isTerminal = true := by
  have hcaps : ∀ d c, Sample.oneSlot.cap d = some c → 1 ≤ c := by
    intro d c hc
    cases d with
    | global =>
      obtain rfl : 1 = c := Option.some.inj hc
      decide
    | kind k => cases hc
    | scope scope => cases hc
  have hsetup : ∀ call ∈ Sample.persistent, call.registers = true := by decide
  have hconverge := ticks_converge Sample.coarseWorld "t" (fun d => by cases d <;> rfl) hcaps hsetup
    built_detour sorts_detour Dag.acyclic_detour (fun _ => 2)
    (fun kind gate hgate => absurd hgate List.not_mem_nil) returns_persistent (by decide)
  exact ⟨by decide +kernel, hconverge.2 6 rested_persisting (by decide)⟩

end Shigoto
