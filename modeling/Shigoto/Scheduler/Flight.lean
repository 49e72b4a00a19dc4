import Shigoto.Scheduler.Effect
import Shigoto.Scheduler.View

/-!
# Executions in flight

Between the moment PASS 2 collects the Running jobs of a wave and the moment their results are
applied, the caller has executions in flight. Commands of the caller itself only ever take from them,
but for the collection (`View.flight_next`), and as long as its moves land, what is in flight is
Running (`View.running_next`). Both hold whatever other callers do in between.
-/

namespace Shigoto

open Atomic

variable {w : World} {v : View} {c : Cmd}

/-- A move lands: the table accepts a signal, and an operator does not write over a Running job. -/
def Cmd.Lands (s : InProcessScheduler) : Cmd → Prop
  | .dispatch id signal => ∃ target, advance (s.phase id) signal = .ok target
  | .overwrite id _ => s.phase id ≠ .running
  | _ => True

/-- The event starts an execution that yields no result. -/
def panics (w : World) (e : SchedEvent) : Bool :=
  match e.cmd with
  | .spawn id job timeout => (handle w (.spawn id job timeout) e.pre).1.result.isNone
  | _ => false

/-! ## What a due signal can do -/

/-- A signal that is due never moves a job out of a terminal phase. -/
theorem Due.not_terminal {pass : Pass} {focus : Focus} {id : JobId} {signal : Signal}
    {phase target : JobPhase} (hdue : Due pass id focus signal)
    (hadvance : advance phase signal = .ok target) : phase.isTerminal = false := by
  by_contra hterminal
  obtain ⟨-, hsignal, -⟩ := advance_terminal (by simpa using hterminal) hadvance
  cases hdue <;> simp at hsignal

/-- Only the result of its execution moves a job out of Running. -/
theorem Due.of_running {pass : Pass} {focus : Focus} {id : JobId} {signal : Signal}
    {target : JobPhase} (hdue : Due pass id focus signal)
    (hadvance : advance .running signal = .ok target) :
    signal = .executionSucceeded ∨ signal = .executionFailed := by
  cases hdue with
  | success results => exact .inl rfl
  | failure results => exact .inr rfl
  | gates phase ctx outcomes news => cases (advance_evaluateGates_iff.mp hadvance).1
  | backoff untilMs nowMs elapsed => simp [advance_backoffElapsed_iff] at hadvance
  | slot seeded => cases (advance_allocateBudget_iff.mp hadvance).1
  | retry outcome => simp [advance_retryDecide_iff] at hadvance

/-! ## Where a command leads -/

/-- The focus after a command, where it is not one between two steps. -/
def Cmd.LeadsTo : Cmd → Focus → Prop
  | .tryAllocate id, focus => focus = .granted id
  | .dispatch id _, focus =>
    focus = .refused ∨ ∃ results, focus = .succeeded id results ∨ focus = .releasing id results
  | .recordFailure id, focus => ∃ results, focus = .recorded id results
  | .clearFailures id, focus => ∃ results, focus = .releasing id results
  | .release _, focus | .join _, focus => ∃ results, focus = .applying results
  | .runningOf _, focus | .spawn _ _ _, focus => ∃ ids tasks, focus = .collecting ids tasks
  | .lookupJob id, focus => ∃ job timeout ids tasks, focus = .fetched id job timeout ids tasks
  | .overwrite id _, focus => ∃ source target, focus = .moved id source target
  | .now, focus => ∃ id source target, focus = .moved id source target
  | _, _ => False

/-- **What a caller is in the middle of was begun by its last command.** -/
theorem View.leadsTo_next {r : c.Resp} (hallows : v.Allows c) :
    (v.next c r).focus.idle = true ∨ c.LeadsTo (v.next c r).focus := by
  obtain ⟨pass, focus⟩ := v
  cases c with
  | now =>
    -- the tick asks between two steps, an operator in the middle of a move
    rcases hallows with hidle | ⟨id, source, target, hfocus⟩
    · left
      show (focus.clock r).idle = true
      cases focus with
      | looked id phase => cases phase <;> rfl
      | delayed id after => rfl
      | _ => exact hidle
    · obtain rfl : focus = .moved id source target := hfocus
      exact .inr ⟨id, source, target, rfl⟩
  | readGates id => rcases hallows with h | h <;> cases h <;> exact .inl rfl
  | consult gate ctx =>
    obtain ⟨id, phase, ahead, outcomes, rfl⟩ := hallows
    exact .inl rfl
  | dispatch id signal =>
    have hdue : Due pass id focus signal := hallows
    cases r with
    | error e => exact .inr (.inl rfl)
    | ok event =>
      cases hdue with
      | success results => exact .inr (.inr ⟨results, .inl rfl⟩)
      | failure results => exact .inr (.inr ⟨results, .inr rfl⟩)
      | gates phase ctx outcomes news => exact .inl rfl
      | backoff untilMs nowMs elapsed => exact .inl rfl
      | slot seeded => exact .inl rfl
      | retry outcome => exact .inl rfl
  | tryAllocate id =>
    cases r with
    | error e => exact .inl rfl
    | ok u => exact .inr rfl
  | decide policy attempt history =>
    obtain ⟨id, rfl⟩ : ∃ id, focus = .judging id policy attempt history := hallows
    cases r <;> exact .inl rfl
  | runningOf wave =>
    cases r with
    | nil => exact .inl rfl
    | cons id ids => exact .inr ⟨id :: ids, [], rfl⟩
  | lookupJob id =>
    obtain ⟨ids, tasks, rfl⟩ : ∃ ids tasks, focus = .collecting (id :: ids) tasks := hallows
    exact .inr ⟨_, _, ids, tasks, rfl⟩
  | spawn id job timeout =>
    obtain ⟨ids, tasks, rfl⟩ : ∃ ids tasks, focus = .fetched id job timeout ids tasks := hallows
    exact .inr ⟨ids, _, rfl⟩
  | join tasks => exact .inr ⟨r, rfl⟩
  | recordFailure id =>
    obtain ⟨results, rfl⟩ : ∃ results, focus = .applying ((id, .error ()) :: results) := hallows
    exact .inr ⟨results, rfl⟩
  | clearFailures id =>
    obtain ⟨results, rfl⟩ : ∃ results, focus = .succeeded id results := hallows
    exact .inr ⟨results, rfl⟩
  | release id =>
    obtain ⟨results, rfl⟩ : ∃ results, focus = .releasing id results := hallows
    exact .inr ⟨results, rfl⟩
  | overwrite id phase =>
    obtain ⟨source, rfl, -⟩ := hallows
    exact .inr ⟨source, phase, rfl⟩
  | _ => exact .inl rfl

/-- Between the record of a failure and its signal nothing else happens. -/
theorem View.Allows.dispatch_of_recorded (hallows : v.Allows c) {id : JobId}
    {results : List (JobId × ExecResult)} (hfocus : v.focus = .recorded id results) :
    c = .dispatch id .executionFailed := by
  obtain ⟨pass, focus⟩ := v
  obtain rfl : focus = .recorded id results := hfocus
  cases c with
  | dispatch id' signal =>
    have hdue : Due pass id' (.recorded id results) signal := hallows
    cases hdue
    rfl
  | _ => simp [View.Allows, View.Resting, Focus.idle] at hallows

theorem View.recordFailure_of_recorded {r : c.Resp} (hallows : v.Allows c) {id : JobId}
    {results : List (JobId × ExecResult)} (hfocus : (v.next c r).focus = .recorded id results) :
    c = .recordFailure id := by
  have hleads := (View.leadsTo_next (r := r) hallows).resolve_left (by simp [hfocus, Focus.idle])
  rw [hfocus] at hleads
  cases c with
  | recordFailure id' =>
    obtain ⟨results', h⟩ := hleads
    injection h with hid
    rw [hid]
  | _ => simp [Cmd.LeadsTo] at hleads

/-- Between the signal of a success and the clearing of its failures nothing else happens. -/
theorem View.Allows.clearFailures_of_succeeded (hallows : v.Allows c) {id : JobId}
    {results : List (JobId × ExecResult)} (hfocus : v.focus = .succeeded id results) :
    c = .clearFailures id := by
  obtain ⟨pass, focus⟩ := v
  obtain rfl : focus = .succeeded id results := hfocus
  cases c with
  | dispatch id' signal =>
    have hdue : Due pass id' (.succeeded id results) signal := hallows
    cases hdue
  | clearFailures id' =>
    obtain ⟨results', hfocus⟩ := hallows
    obtain ⟨rfl, -⟩ := Focus.succeeded.inj hfocus
    rfl
  | _ => simp [View.Allows, View.Resting, Focus.idle] at hallows

/-! ## The work of PASS 2 -/

/-- The collected jobs that are not spawned yet. -/
def Focus.ahead : Focus → List JobId
  | .collecting ids _ => ids
  | .fetched id _ _ ids _ => id :: ids
  | _ => []

/-- The tasks spawned and not yet awaited. -/
def Focus.spawned : Focus → List Task
  | .collecting _ tasks | .fetched _ _ _ _ tasks => tasks
  | _ => []

/-- The jobs whose results are still to be applied. -/
def Focus.unapplied : Focus → List JobId
  | .applying results | .succeeded _ results | .releasing _ results => results.map (·.1)
  | .recorded id results => id :: results.map (·.1)
  | _ => []

/-- The jobs whose execution has been spawned and not applied yet. -/
def Focus.executed (focus : Focus) : List JobId := focus.spawned.map (·.id) ++ focus.unapplied

/-- The jobs whose result is applied and whose slot is still to be given back. -/
def Focus.returning : Focus → List JobId
  | .succeeded id _ | .releasing id _ => [id]
  | _ => []

theorem Focus.flight_eq (focus : Focus) : focus.flight = focus.ahead ++ focus.executed := by
  cases focus <;> simp [flight, ahead, executed, spawned, unapplied]

/-- The work of one focus is that of another. -/
def Focus.SameWork (focus focus' : Focus) : Prop :=
  focus.ahead = focus'.ahead ∧ focus.spawned = focus'.spawned ∧
    focus.unapplied = focus'.unapplied ∧ focus.returning = focus'.returning

theorem Focus.SameWork.trans {focus₁ focus₂ focus₃ : Focus} (h : focus₁.SameWork focus₂)
    (h' : focus₂.SameWork focus₃) : focus₁.SameWork focus₃ :=
  ⟨h.1.trans h'.1, h.2.1.trans h'.2.1, h.2.2.1.trans h'.2.2.1, h.2.2.2.trans h'.2.2.2⟩

theorem Focus.SameWork.symm {focus focus' : Focus} (h : focus.SameWork focus') :
    focus'.SameWork focus :=
  ⟨h.1.symm, h.2.1.symm, h.2.2.1.symm, h.2.2.2.symm⟩

theorem Focus.SameWork.executed {focus focus' : Focus} (h : focus.SameWork focus') :
    focus.executed = focus'.executed := by
  rw [Focus.executed, Focus.executed, h.2.1, h.2.2.1]

theorem Focus.SameWork.flight {focus focus' : Focus} (h : focus.SameWork focus') :
    focus.flight = focus'.flight := by
  rw [flight_eq, flight_eq, h.1, h.executed]

/-- A caller between two steps has no work. -/
theorem Focus.sameWork_rest {focus : Focus} (h : focus.idle = true) : focus.SameWork .rest := by
  cases focus with
  | collecting ids tasks => simp [idle] at h
  | fetched id job timeout ids tasks => simp [idle] at h
  | applying results =>
    cases results with
    | nil => exact ⟨rfl, rfl, rfl, rfl⟩
    | cons x results => simp [idle] at h
  | recorded id results => simp [idle] at h
  | succeeded id results => simp [idle] at h
  | releasing id results => simp [idle] at h
  | _ => exact ⟨rfl, rfl, rfl, rfl⟩

theorem Focus.flight_of_idle {focus : Focus} (h : focus.idle = true) : focus.flight = [] :=
  (Focus.sameWork_rest h).flight

/-- Commands that change what there is to do in PASS 2. -/
def Cmd.works : Cmd → Bool
  | .runningOf _ | .spawn _ _ _ | .join _ | .dispatch _ _ | .release _ => true
  | _ => false

/-- **All other commands leave the work alone.** -/
theorem View.sameWork_next {r : c.Resp} (hallows : v.Allows c) (hc : c.works = false) :
    (v.next c r).focus.SameWork v.focus := by
  have hidle : v.focus.idle = true → (v.next c r).focus.SameWork .rest →
      (v.next c r).focus.SameWork v.focus := by
    intro hidle h
    exact h.trans (Focus.sameWork_rest hidle).symm
  obtain ⟨pass, focus⟩ := v
  cases c with
  | runningOf wave => simp [Cmd.works] at hc
  | spawn id job timeout => simp [Cmd.works] at hc
  | join tasks => simp [Cmd.works] at hc
  | dispatch id signal => simp [Cmd.works] at hc
  | release id => simp [Cmd.works] at hc
  | now =>
    cases focus with
    | looked id phase => cases phase <;> exact ⟨rfl, rfl, rfl, rfl⟩
    | _ => exact ⟨rfl, rfl, rfl, rfl⟩
  | readGates id => rcases hallows with h | h <;> cases h <;> exact ⟨rfl, rfl, rfl, rfl⟩
  | consult gate ctx =>
    obtain ⟨id, phase, ahead, outcomes, rfl⟩ := hallows
    exact ⟨rfl, rfl, rfl, rfl⟩
  | tryAllocate id =>
    obtain ⟨rfl, -⟩ : focus = .looked id .ready ∧ _ := hallows
    cases r <;> exact ⟨rfl, rfl, rfl, rfl⟩
  | readRetry id =>
    obtain ⟨n, rfl⟩ : ∃ n, focus = .looked id (.failed n) := hallows
    exact ⟨rfl, rfl, rfl, rfl⟩
  | decide policy attempt history =>
    obtain ⟨id, rfl⟩ : ∃ id, focus = .judging id policy attempt history := hallows
    cases r <;> exact ⟨rfl, rfl, rfl, rfl⟩
  | lookupJob id =>
    obtain ⟨ids, tasks, rfl⟩ : ∃ ids tasks, focus = .collecting (id :: ids) tasks := hallows
    exact ⟨rfl, rfl, rfl, rfl⟩
  | recordFailure id =>
    obtain ⟨results, rfl⟩ : ∃ results, focus = .applying ((id, .error ()) :: results) := hallows
    exact ⟨rfl, rfl, rfl, rfl⟩
  | clearFailures id =>
    obtain ⟨results, rfl⟩ : ∃ results, focus = .succeeded id results := hallows
    exact ⟨rfl, rfl, rfl, rfl⟩
  | overwrite id phase =>
    obtain ⟨source, rfl, -⟩ := hallows
    exact ⟨rfl, rfl, rfl, rfl⟩
  | emit time id source target reason =>
    obtain rfl : focus = .moved id source target := hallows
    exact ⟨rfl, rfl, rfl, rfl⟩
  | seed id => exact hidle hallows ⟨rfl, rfl, rfl, rfl⟩
  | phaseOf id => exact hidle hallows ⟨rfl, rfl, rfl, rfl⟩
  | _ => exact hidle hallows.1 ⟨rfl, rfl, rfl, rfl⟩

/-- A spawn takes one job from those ahead to the tasks. -/
theorem View.work_spawn {id : JobId} {job : Option ErasedJob} {timeout : Option Duration}
    (hallows : v.Allows (.spawn id job timeout)) (task : Task) :
    let focus := (v.next (.spawn id job timeout) task).focus
    v.focus.ahead = id :: focus.ahead ∧ focus.spawned = v.focus.spawned ++ [task] ∧
      focus.unapplied = v.focus.unapplied ∧ focus.returning = v.focus.returning := by
  obtain ⟨pass, focus⟩ := v
  obtain ⟨ids, tasks, rfl⟩ : ∃ ids tasks, focus = .fetched id job timeout ids tasks := hallows
  exact ⟨rfl, rfl, rfl, rfl⟩

/-- What is left to apply after an accepted signal. -/
theorem Due.work_dispatched {pass : Pass} {focus : Focus} {id : JobId} {signal : Signal}
    (hdue : Due pass id focus signal) :
    (focus.SameWork .rest ∧ focus.dispatched.SameWork .rest) ∨
      (signal = .executionSucceeded ∨ signal = .executionFailed) ∧ focus.ahead = [] ∧
        focus.executed = id :: focus.dispatched.executed ∧ focus.returning = [] ∧
        focus.dispatched.returning = [id] := by
  cases hdue with
  | success results => exact .inr ⟨.inl rfl, rfl, rfl, rfl, rfl⟩
  | failure results => exact .inr ⟨.inr rfl, rfl, rfl, rfl, rfl⟩
  | gates phase ctx outcomes news => exact .inl ⟨⟨rfl, rfl, rfl, rfl⟩, ⟨rfl, rfl, rfl, rfl⟩⟩
  | backoff untilMs nowMs elapsed => exact .inl ⟨⟨rfl, rfl, rfl, rfl⟩, ⟨rfl, rfl, rfl, rfl⟩⟩
  | slot seeded => exact .inl ⟨⟨rfl, rfl, rfl, rfl⟩, ⟨rfl, rfl, rfl, rfl⟩⟩
  | retry outcome => exact .inl ⟨⟨rfl, rfl, rfl, rfl⟩, ⟨rfl, rfl, rfl, rfl⟩⟩

/-- A release gives back the slot of the job whose result was applied last. -/
theorem View.work_release {id : JobId} (hallows : v.Allows (.release id)) (u : Unit) :
    let focus := (v.next (.release id) u).focus
    focus.ahead = v.focus.ahead ∧ focus.spawned = v.focus.spawned ∧
      focus.unapplied = v.focus.unapplied ∧ v.focus.returning = [id] ∧ focus.returning = [] := by
  obtain ⟨pass, focus⟩ := v
  obtain ⟨results, rfl⟩ : ∃ results, focus = .releasing id results := hallows
  exact ⟨rfl, rfl, rfl, rfl, rfl⟩

theorem Focus.ahead_dispatched (focus : Focus) (h : focus.ahead = []) : focus.dispatched.ahead = [] := by
  cases focus with
  | applying results => cases results <;> rfl
  | _ => rfl

/-! ## What is in flight -/

/-- The results of joined tasks belong to the tasks, each once. -/
theorem yield_ids_subperm {tasks : List Task} {results : List (JobId × ExecResult)}
    (h : results.Perm (tasks.filterMap Task.yield)) :
    (results.map (·.1)).Subperm (tasks.map (·.id)) := by
  have hsub : ∀ tasks : List Task,
      ((tasks.filterMap Task.yield).map (·.1)).Sublist (tasks.map (·.id)) := by
    intro tasks
    induction tasks with
    | nil => exact .refl _
    | cons task tasks ih =>
      obtain ⟨id, result⟩ := task
      cases result with
      | none => exact ih.cons id
      | some result => exact ih.cons_cons id
  exact (h.map _).subperm.trans (hsub tasks).subperm

/-- What is left in flight after an accepted signal. -/
theorem Due.flight_dispatched {pass : Pass} {focus : Focus} {id : JobId} {signal : Signal}
    (hdue : Due pass id focus signal) :
    (focus.flight = [] ∧ focus.dispatched.flight = []) ∨
      (signal = .executionSucceeded ∨ signal = .executionFailed) ∧
        focus.flight = id :: focus.dispatched.flight := by
  rcases hdue.work_dispatched with ⟨hbefore, hafter⟩ | ⟨hsignal, hahead, hexecuted, -⟩
  · exact .inl ⟨hbefore.flight, hafter.flight⟩
  · refine .inr ⟨hsignal, ?_⟩
    rw [Focus.flight_eq, Focus.flight_eq, hahead, Focus.ahead_dispatched focus hahead, hexecuted]
    rfl

/-- A result that is due belongs to an execution in flight. -/
theorem Due.mem_flight {pass : Pass} {focus : Focus} {id : JobId} {signal : Signal}
    (hdue : Due pass id focus signal)
    (hsignal : signal = .executionSucceeded ∨ signal = .executionFailed) : id ∈ focus.flight := by
  cases hdue with
  | success results => exact List.mem_cons_self
  | failure results => exact List.mem_cons_self
  | gates phase ctx outcomes news => simp at hsignal
  | backoff untilMs nowMs elapsed => simp at hsignal
  | slot seeded => simp at hsignal
  | retry outcome => simp at hsignal

/-- **Only a collection adds to what is in flight.** -/
theorem View.flight_next {r : c.Resp} (hallows : v.Allows c) (hr : c.Answers r)
    (hc : ∀ wave, c ≠ .runningOf wave) : (v.next c r).focus.flight.Subperm v.focus.flight := by
  cases hworks : c.works with
  | false => exact ((View.sameWork_next hallows hworks).flight ▸ .refl _)
  | true =>
    cases c with
    | runningOf wave => exact absurd rfl (hc wave)
    | spawn id job timeout =>
      obtain ⟨ids, tasks, hfocus⟩ : ∃ ids tasks, v.focus = .fetched id job timeout ids tasks :=
        hallows
      have hnext : (v.next (.spawn id job timeout) r).focus = .collecting ids (tasks ++ [r]) := by
        simp only [View.next, hfocus]
      have hid : r.id = id := hr
      rw [hnext, hfocus, Focus.flight, Focus.flight, List.map_append, List.map_singleton, hid,
        ← List.append_assoc]
      exact (List.perm_append_singleton id _).subperm
    | join tasks =>
      have hfocus : v.focus = .collecting [] tasks := hallows
      rw [hfocus]
      exact yield_ids_subperm hr
    | dispatch id signal =>
      cases r with
      | error e => exact List.nil_subperm
      | ok event =>
        rcases Due.flight_dispatched hallows with ⟨-, hdispatched⟩ | ⟨-, hflight⟩
        · show v.focus.dispatched.flight.Subperm v.focus.flight
          rw [hdispatched]
          exact List.nil_subperm
        · rw [hflight]
          exact (List.sublist_cons_self id _).subperm
    | release id =>
      obtain ⟨hahead, hspawned, hunapplied, -⟩ := View.work_release hallows r
      rw [Focus.flight_eq, Focus.flight_eq v.focus, Focus.executed, Focus.executed, hahead, hspawned,
        hunapplied]
    | _ => simp [Cmd.works] at hworks

/-- A collection puts in flight what it finds. -/
@[simp] theorem View.flight_runningOf (v : View) (wave ids : List JobId) :
    (v.next (.runningOf wave) ids).focus.flight = ids := by
  cases ids with
  | nil => rfl
  | cons id ids => simp [View.next, Focus.flight]

/-- The Running jobs of a wave. -/
def InProcessScheduler.runningOf (s : InProcessScheduler) (wave : List JobId) : List JobId :=
  wave.filter fun id => s.state.phases.get? id = some .running

theorem InProcessScheduler.mem_runningOf {s : InProcessScheduler} {wave : List JobId} {id : JobId} :
    id ∈ s.runningOf wave ↔ id ∈ wave ∧ s.phase id = .running := by
  rw [runningOf, List.mem_filter, decide_eq_true_iff]
  refine and_congr_right fun _ => ⟨fun hget => ?_, fun hphase => get?_of_phaseIn hphase (by simp)⟩
  simp [InProcessScheduler.phase, phaseIn, hget]

/-- What a collection finds is Running. -/
theorem mem_runningOf {s : InProcessScheduler} {wave : List JobId} {id : JobId} :
    id ∈ (handle w (.runningOf wave) s).1 ↔ id ∈ wave ∧ s.phase id = .running :=
  InProcessScheduler.mem_runningOf

theorem View.nodup_next {s : InProcessScheduler} (hallows : v.Allows c)
    (hnodup : v.focus.flight.Nodup) : (v.next c (handle w c s).1).focus.flight.Nodup := by
  by_cases hc : ∃ wave, c = .runningOf wave
  · obtain ⟨wave, rfl⟩ := hc
    rw [View.flight_runningOf]
    exact hallows.2.1.filter _
  · obtain ⟨ids, hperm, hsub⟩ := View.flight_next hallows
      (answers_handle w (fun _ => True) c s) fun wave hwave => hc ⟨wave, hwave⟩
    exact hperm.nodup_iff.mp (hsub.nodup hnodup)

/-- A move that lands takes a job out of Running only by the result of its execution. -/
theorem View.running_of_lands {s : InProcessScheduler} (hallows : v.Allows c) (hlands : c.Lands s)
    (hrestore : ∀ saved, c ≠ .restoreState saved) {id : JobId} (hid : s.phase id = .running) :
    (handle w c s).2.phase id = .running ∨
      c = .dispatch id .executionSucceeded ∨ c = .dispatch id .executionFailed := by
  rcases phase_handle w c s id with hsame | ⟨signal, rfl, hadvance⟩ | hoverwrite | ⟨saved, rfl⟩
  · exact .inl (hsame.trans hid)
  · rw [hid] at hadvance
    refine .inr ?_
    rcases Due.of_running hallows hadvance with rfl | rfl
    · exact .inl rfl
    · exact .inr rfl
  · rw [hoverwrite] at hlands
    exact absurd hid hlands
  · exact absurd rfl (hrestore saved)

/-- **What is in flight is Running**, as long as the moves of the caller land. -/
theorem View.running_next {s : InProcessScheduler} (hallows : v.Allows c) (hlands : c.Lands s)
    (hrunning : ∀ id ∈ v.focus.flight, s.phase id = .running) (hnodup : v.focus.flight.Nodup) :
    ∀ id ∈ (v.next c (handle w c s).1).focus.flight, (handle w c s).2.phase id = .running := by
  intro id hid
  by_cases hc : ∃ wave, c = .runningOf wave
  · obtain ⟨wave, rfl⟩ := hc
    rw [View.flight_runningOf] at hid
    exact (mem_runningOf.mp hid).2
  · have hflight := View.flight_next hallows
      (answers_handle w (fun _ => True) c s) fun wave hwave => hc ⟨wave, hwave⟩
    by_cases hrestore : ∃ saved, c = .restoreState saved
    · obtain ⟨saved, rfl⟩ := hrestore
      exact absurd hid List.not_mem_nil
    · rcases View.running_of_lands hallows hlands (fun saved h => hrestore ⟨saved, h⟩)
        (hrunning id (hflight.subset hid)) with hstays | hends
      · exact hstays
      · -- the result of `id` is applied, and `id` is in flight only once
        exfalso
        have hlast : ∀ signal, c = .dispatch id signal →
            (signal = .executionSucceeded ∨ signal = .executionFailed) → False := by
          rintro signal rfl hsignal
          obtain ⟨target, hadvance⟩ := hlands
          have hanswer := answer_dispatch_ok w hadvance
          rw [hanswer] at hid
          rcases Due.flight_dispatched hallows with ⟨-, hdispatched⟩ | ⟨-, hcons⟩
          · rw [show (v.next _ _).focus.flight = v.focus.dispatched.flight from rfl, hdispatched] at hid
            exact absurd hid List.not_mem_nil
          · rw [hcons] at hnodup
            exact (List.nodup_cons.mp hnodup).1 hid
        rcases hends with h | h
        · exact hlast _ h (.inl rfl)
        · exact hlast _ h (.inr rfl)

end Shigoto
