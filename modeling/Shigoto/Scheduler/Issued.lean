import Shigoto.Scheduler.Effect
import Shigoto.Scheduler.Tick
import Shigoto.Atomic.Wp

/-!
# The commands of each pass

PASS 1 and PASS 3 drive the jobs of a wave, PASS 2 executes them and applies the results. Which
commands each of them can issue at all (`Cmd.drives`, `Cmd.applies`) settles what it leaves alone:
what `drives_handle` says of one command, `Issues.wp` says of the whole pass.
-/

namespace Shigoto

open Atomic

variable {w : World} {m : SchedMachine}

/-- The phase table refused a signal. -/
def SchedulerError.refusal : SchedulerError → Prop
  | .illegalTransition _ => True
  | .topology _ => False

/-- The program issues only commands in `S`, and fails only where the phase table refuses a signal. -/
abbrev Sched.Issues {α : Type} (S : Cmd → Prop) (p : Sched α) : Prop :=
  Atomic.Issues S SchedulerError.refusal p

/-! ## Driving -/

/-- Signals that PASS 1 and PASS 3 send. -/
def Signal.drives : Signal → Bool
  | .evaluateGates _ | .allocateBudget | .retryDecide _ | .backoffElapsed => true
  | _ => false

/-- The questions asked about the jobs `ids` before a signal is sent. -/
def Cmd.asks (ids : List JobId) : Cmd → Prop
  | .readGates id | .readRetry id => id ∈ ids
  | .now | .consult _ _ | .decide _ _ _ => True
  | _ => False

/-- The commands that drive the jobs `ids`. -/
def Cmd.drives (ids : List JobId) : Cmd → Prop
  | .seed id | .phaseOf id | .readGates id | .tryAllocate id | .readRetry id => id ∈ ids
  | .dispatch id signal => id ∈ ids ∧ signal.drives = true
  | .now | .consult _ _ | .decide _ _ _ => True
  | _ => False

theorem Cmd.drives_mono {ids ids' : List JobId} (hsub : ∀ id ∈ ids, id ∈ ids') {c : Cmd}
    (h : c.drives ids) : c.drives ids' := by
  cases c with
  | dispatch id signal => exact ⟨hsub id h.1, h.2⟩
  | seed id => exact hsub id h
  | phaseOf id => exact hsub id h
  | readGates id => exact hsub id h
  | tryAllocate id => exact hsub id h
  | readRetry id => exact hsub id h
  | _ => exact h

theorem Cmd.drives_of_asks {ids : List JobId} {c : Cmd} (h : c.asks ids) : c.drives ids := by
  cases c with
  | readGates id => exact h
  | readRetry id => exact h
  | now => exact h
  | consult gate ctx => exact h
  | decide policy attempt history => exact h
  | _ => exact h.elim

theorem Cmd.not_moves_of_asks {ids : List JobId} {c : Cmd} (h : c.asks ids) : c.moves = false := by
  cases c with
  | dispatch id signal => exact h.elim
  | overwrite id phase => exact h.elim
  | restoreState saved => exact h.elim
  | _ => rfl

theorem Cmd.not_emits_of_asks {ids : List JobId} {c : Cmd} (h : c.asks ids) : c.emits = false := by
  cases c with
  | dispatch id signal => exact h.elim
  | emit time id source target reason => exact h.elim
  | _ => rfl

section

variable {ids : List JobId} {id : JobId} (hid : id ∈ ids) {F : SchedulerError → Prop}

include hid

theorem issues_dispatch {signal : Signal} (hsignal : signal.drives = true)
    (transitions : List TransitionEvent) :
    Sched.Issues (Cmd.drives ids) (dispatch id signal transitions) := by
  refine Issues.perform_bind ⟨hid, hsignal⟩ fun r => ?_
  cases r <;> exact True.intro

omit hid in
theorem issues_consultAll (ctx : GateContext) (gates : List Gate) (outcomes : List GateOutcome) :
    Issues (Cmd.asks ids) F (consultAll ctx gates outcomes) := by
  induction gates generalizing outcomes with
  | nil => exact True.intro
  | cons gate gates ih => exact Issues.perform_bind True.intro fun outcome => ih _

/-- Evaluating the gates fails in no way. -/
theorem issues_evaluateGates (dag : Dag) : Issues (Cmd.asks ids) F (evaluateGates id dag) := by
  apply Issues.perform_bind hid
  rintro ⟨gates, snapshot⟩
  exact Issues.bind (issues_consultAll _ gates []) fun _ => True.intro

theorem issues_decideRetry : Issues (Cmd.asks ids) F (decideRetry id) := by
  apply Issues.perform_bind hid
  rintro ⟨policy, attempt, history⟩
  refine Issues.perform_bind True.intro fun decision => ?_
  cases decision with
  | deadletter => exact True.intro
  | retry after => exact Issues.perform_bind True.intro fun _ => True.intro

theorem issues_advanceOnce (source : JobPhase) (dag : Dag) (transitions : List TransitionEvent) :
    Sched.Issues (Cmd.drives ids) (advanceOnce id source dag transitions) := by
  have hsend : ∀ signal : Signal, signal.drives = true →
      Sched.Issues (Cmd.drives ids) (do
        let transitions ← dispatch id signal transitions
        return (true, transitions)) :=
    fun signal hsignal => (issues_dispatch hid hsignal transitions).bind fun _ => True.intro
  have hgates : ∀ source : JobPhase, Sched.Issues (Cmd.drives ids) (do
      let aggregate ← evaluateGates id dag
      let alreadyGated := source = .gated && aggregate = .someWaiting
      if alreadyGated then return (false, transitions)
      else do
        let transitions ← dispatch id (.evaluateGates aggregate) transitions
        return (true, transitions)) := by
    intro source
    refine ((issues_evaluateGates hid dag).mono fun _ => Cmd.drives_of_asks).bind fun aggregate => ?_
    dsimp only
    split
    · exact True.intro
    · exact hsend _ rfl
  cases source with
  | pending => exact hgates .pending
  | gated => exact hgates .gated
  | ready =>
    refine Issues.perform_bind hid fun r => ?_
    cases r with
    | error e => exact True.intro
    | ok u => exact hsend _ rfl
  | retrying untilMs =>
    refine Issues.perform_bind True.intro fun nowMs => ?_
    split
    · exact True.intro
    · exact hsend _ rfl
  | failed n =>
    exact ((issues_decideRetry hid).mono fun _ => Cmd.drives_of_asks).bind fun outcome => hsend _ rfl
  | _ => exact True.intro

theorem issues_drive (dag : Dag) (bound : Nat) (transitions : List TransitionEvent) :
    Sched.Issues (Cmd.drives ids) (drive dag id bound transitions) := by
  induction bound generalizing transitions with
  | zero => exact True.intro
  | succ bound ih =>
    refine Issues.perform_bind hid fun source => ?_
    split
    · exact True.intro
    · apply Issues.bind (issues_advanceOnce hid source dag transitions)
      rintro ⟨progressed, transitions'⟩
      cases progressed with
      | false => exact True.intro
      | true => exact ih transitions'

end

theorem issues_pass1 (dag : Dag) (wave : List JobId) (transitions : List TransitionEvent) :
    Sched.Issues (Cmd.drives wave) (pass1 dag wave transitions) := by
  induction wave generalizing transitions with
  | nil => exact True.intro
  | cons id wave ih =>
    refine Issues.perform_bind List.mem_cons_self fun _ => ?_
    refine (issues_drive List.mem_cons_self dag 6 transitions).bind fun transitions' => ?_
    exact (ih transitions').mono fun c => Cmd.drives_mono fun _ => List.mem_cons_of_mem id

theorem issues_pass3 (dag : Dag) (wave : List JobId) (transitions : List TransitionEvent) :
    Sched.Issues (Cmd.drives wave) (pass3 dag wave transitions) := by
  induction wave generalizing transitions with
  | nil => exact True.intro
  | cons id wave ih =>
    refine (issues_drive List.mem_cons_self dag 3 transitions).bind fun transitions' => ?_
    exact (ih transitions').mono fun c => Cmd.drives_mono fun _ => List.mem_cons_of_mem id

/-! ## The rule for a tick -/

/-- **A tick is its waves**, between the question for them and the receipt. -/
theorem wp_tick {dag : Dag} {Q : TickReceipt → SchedMachine → Prop}
    {E : SchedulerError → SchedMachine → Prop}
    (herror : ∀ e, dag.waves w.toposort (w.order (m.state.time + 1)) none = .error e →
      E (.topology e) ((m.step (handle w) 0 .now).step (handle w) 0 (.waves dag)))
    (hrun : ∀ ws, dag.waves w.toposort (w.order (m.state.time + 1)) none = .ok ws →
      wp (handle w) 0 (runWaves dag ws [])
        (fun transitions m' => Q
          { tickAt := w.clock m.state.time
            phaseCounts := Snapshot.phaseCounts ⟨m'.state.state.phases⟩
            transitionsThisTick := transitions
            unhealed := collectUnhealed (w.order (m'.state.time + 1)) (w.spelling (m'.state.time + 1))
              m'.state.state.phases }
          ((m'.step (handle w) 0 .snapshotInner).step (handle w) 0 .hashOrder))
        E ((m.step (handle w) 0 .now).step (handle w) 0 (.waves dag))) :
    wp (handle w) 0 (tick dag) Q E m := by
  apply wp_perform_bind.mpr
  apply wp_perform_bind.mpr
  cases hwaves : dag.waves w.toposort (w.order (m.state.time + 1)) none with
  | error e =>
    have hanswer : (handle w (.waves dag) (m.step (handle w) 0 .now).state).1 = .error e := hwaves
    rw [hanswer]
    exact herror e hwaves
  | ok ws =>
    have hanswer : (handle w (.waves dag) (m.step (handle w) 0 .now).state).1 = .ok ws := hwaves
    rw [hanswer]
    exact wp_bind.mpr (hrun ws hwaves)

/-! ## Executing and applying -/

/-- The commands that apply the results of `ids`. -/
def Cmd.applies (ids : List JobId) : Cmd → Prop
  | .dispatch id signal => id ∈ ids ∧ (signal = .executionSucceeded ∨ signal = .executionFailed)
  | .clearFailures id | .recordFailure id | .release id => id ∈ ids
  | _ => False

theorem Cmd.applies_mono {ids ids' : List JobId} (hsub : ∀ id ∈ ids, id ∈ ids') {c : Cmd}
    (h : c.applies ids) : c.applies ids' := by
  cases c with
  | dispatch id signal => exact ⟨hsub id h.1, h.2⟩
  | clearFailures id => exact hsub id h
  | recordFailure id => exact hsub id h
  | release id => exact hsub id h
  | _ => exact h

theorem issues_applyAll (results : List (JobId × ExecResult)) (transitions : List TransitionEvent) :
    Sched.Issues (Cmd.applies (results.map (·.1))) (applyAll results transitions) := by
  induction results generalizing transitions with
  | nil => exact True.intro
  | cons x results ih =>
    obtain ⟨id, result⟩ := x
    have hid : id ∈ ((id, result) :: results).map (·.1) := List.mem_cons_self
    have happly : Sched.Issues (Cmd.applies (((id, result) :: results).map (·.1)))
        (applyExecutionResult id result transitions) := by
      cases result with
      | ok u =>
        refine Issues.bind (Issues.perform_bind ⟨hid, .inl rfl⟩ fun r => ?_) fun _ => ?_
        · cases r <;> exact True.intro
        · exact Issues.perform_bind hid fun _ => Issues.perform_bind hid fun _ => True.intro
      | error u =>
        refine Issues.perform_bind hid fun _ => Issues.bind (Issues.perform_bind ⟨hid, .inr rfl⟩
          fun r => ?_) fun _ => ?_
        · cases r <;> exact True.intro
        · exact Issues.perform_bind hid fun _ => True.intro
    refine happly.bind fun transitions' => ?_
    exact (ih transitions').mono fun c => Cmd.applies_mono fun _ => List.mem_cons_of_mem id

/-! ## What the passes leave alone -/

/-- Driving leaves jobs, timeouts, gates, policies and failures alone. -/
theorem drives_handle {ids : List JobId} {c : Cmd} (hc : c.drives ids) (s : InProcessScheduler) :
    (handle w c s).2.state = { s.state with phases := (handle w c s).2.state.phases } := by
  cases c with
  | dispatch id signal => exact (dispatch_frame w id signal s).2
  | seed id => rfl
  | phaseOf id => rfl
  | readGates id => rfl
  | tryAllocate id => rfl
  | readRetry id => rfl
  | now => rfl
  | consult gate ctx => rfl
  | decide policy attempt history => rfl
  | _ => exact hc.elim

/-- Driving moves only the driven jobs, and never one that is Running or terminal. -/
theorem phase_of_drives {ids : List JobId} {c : Cmd} (hc : c.drives ids) (s : InProcessScheduler)
    {id : JobId} (hid : id ∉ ids ∨ s.phase id = .running ∨ (s.phase id).isTerminal = true) :
    (handle w c s).2.phase id = s.phase id := by
  rcases phase_handle w c s id with hsame | ⟨signal, rfl, hadvance⟩ | hwrite | ⟨saved, rfl⟩
  · exact hsame
  · obtain ⟨hmem, hsignal⟩ := hc
    rcases hid with hnot | hrunning | hterminal
    · exact absurd hmem hnot
    · rw [hrunning] at hadvance
      cases signal with
      | evaluateGates aggregate => cases (advance_evaluateGates_iff.mp hadvance).1
      | allocateBudget => cases (advance_allocateBudget_iff.mp hadvance).1
      | retryDecide outcome => simp [advance_retryDecide_iff] at hadvance
      | backoffElapsed => simp [advance_backoffElapsed_iff] at hadvance
      | _ => exact Bool.noConfusion hsignal
    · obtain ⟨-, rfl, -⟩ := advance_terminal hterminal hadvance
      exact Bool.noConfusion hsignal
  · rw [hwrite] at hc
    exact hc.elim
  · exact hc.elim

/-! ## Executions in a log -/

/-- The event starts an execution of `id`. -/
def executes (id : JobId) (e : SchedEvent) : Bool :=
  match e.cmd with
  | .spawn id' _ _ => id' = id
  | _ => false

/-- How many executions of `id` a log has started. -/
def executions (id : JobId) (log : List SchedEvent) : Nat := log.countP (executes id)

theorem executions_spawn (id id' : JobId) (job : Option ErasedJob) (timeout : Option Duration)
    (t : Nat) (s : InProcessScheduler) (log : List SchedEvent) :
    executions id (⟨t, .spawn id' job timeout, s⟩ :: log) =
      executions id log + if id' = id then 1 else 0 := by
  simp [executions, executes, List.countP_cons]

/-- Only a spawn starts an execution. -/
theorem executions_cons_of_ne {id : JobId} {c : Cmd} (h : ∀ job timeout, c ≠ .spawn id job timeout)
    (t : Nat) (s : InProcessScheduler) (log : List SchedEvent) :
    executions id (⟨t, c, s⟩ :: log) = executions id log := by
  have hnot : executes id ⟨t, c, s⟩ = false := by
    cases c with
    | spawn id' job timeout =>
      have hne : id' ≠ id := fun hid => h job timeout (by rw [hid])
      simp [executes, hne]
    | _ => rfl
  simp [executions, hnot]

/-- Driving and applying start nothing. -/
theorem executions_step {ids : List JobId} {c : Cmd} (hc : c.drives ids ∨ c.applies ids)
    (m : SchedMachine) (id : JobId) :
    executions id (m.step (handle w) 0 c).log = executions id m.log := by
  apply executions_cons_of_ne
  rintro job timeout rfl
  rcases hc with hc | hc <;> exact hc

end Shigoto
