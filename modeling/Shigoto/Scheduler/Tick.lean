import Shigoto.Scheduler.State

/-!
# The scheduler's programs

`tick`, `operator_transition` and the registration calls, each a `Sched` program over the commands
of `Shigoto.Scheduler.State`. `Call` is the public API; `runCalls` issues calls one after the other.
-/

namespace Shigoto

open Atomic

inductive SchedulerError
  | topology (e : DagError)
  | illegalTransition (e : IllegalTransition)
  deriving DecidableEq, Repr

/-- A program of the scheduler. -/
abbrev Sched := Prog schedInterface SchedulerError

/-- Issue one command. -/
def lock (c : Cmd) : Sched c.Resp := Prog.perform (I := schedInterface) c

/-! ## One step of one job -/

/-- Apply one signal and record the resulting transition. -/
def dispatch (id : JobId) (signal : Signal) (transitions : List TransitionEvent) :
    Sched (List TransitionEvent) := do
  match ← lock (.dispatch id signal) with
  | .ok event => return transitions ++ [event]
  | .error e => .fail (.illegalTransition e)

/-- Ask the registered gates one after the other. -/
def consultAll (ctx : GateContext) : List Gate → List GateOutcome → Sched (List GateOutcome)
  | [], outcomes => return outcomes
  | gate :: gates, outcomes => do
    let outcome ← lock (.consult gate ctx)
    consultAll ctx gates (outcomes ++ [outcome])

/-- Evaluate the gate cohort of `id` against one copy of the phases. -/
def evaluateGates (id : JobId) (dag : Dag) : Sched GateAggregate := do
  let (kindGates, snapshot) ← lock (.readGates id)
  let ctx : GateContext := ⟨id, snapshot, dag⟩
  let outcomes ← consultAll ctx kindGates []
  return cohortAggregate ctx outcomes

/-- Milliseconds as the `i64` that `as_millis() as i64` gives. -/
def Duration.asMillis64 (d : Duration) : Int64 := (UInt64.ofNat d.asMillis).toInt64

/-- Consult the retry policy of the job's kind. -/
def decideRetry (id : JobId) : Sched RetryOutcome := do
  let (policy, attempt, history) ← lock (.readRetry id)
  match ← lock (.decide policy attempt history) with
  | .deadletter => return .deadletter
  | .retry after => do
    let nowMs ← lock .now
    return .retry (nowMs + after.asMillis64)

/-- Apply one step to the job. The flag says whether its phase advanced. -/
def advanceOnce (id : JobId) (source : JobPhase) (dag : Dag)
    (transitions : List TransitionEvent) : Sched (Bool × List TransitionEvent) :=
  match source with
  | .succeeded | .skipped _ | .deadlettered => return (false, transitions)
  | .waitingForOperator => return (false, transitions)
  | .pending | .gated => do
    let aggregate ← evaluateGates id dag
    let alreadyGated := source = .gated && aggregate = .someWaiting
    if alreadyGated then return (false, transitions)
    else do
      let transitions ← dispatch id (.evaluateGates aggregate) transitions
      return (true, transitions)
  | .retrying untilMs => do
    let nowMs ← lock .now
    if nowMs < untilMs then return (false, transitions)
    else do
      let transitions ← dispatch id .backoffElapsed transitions
      return (true, transitions)
  | .ready => do
    match ← lock (.tryAllocate id) with
    | .error _ => return (false, transitions)
    | .ok () => do
      let transitions ← dispatch id .allocateBudget transitions
      return (true, transitions)
  | .running => return (false, transitions)
  | .failed _ => do
    let outcome ← decideRetry id
    let transitions ← dispatch id (.retryDecide outcome) transitions
    return (true, transitions)

/-- Step the job until it is Running, makes no progress, or the bound is reached. -/
def drive (dag : Dag) (id : JobId) : Nat → List TransitionEvent → Sched (List TransitionEvent)
  | 0, transitions => return transitions
  | bound + 1, transitions => do
    let source ← lock (.phaseOf id)
    if source = .running then return transitions
    else do
      let (progressed, transitions) ← advanceOnce id source dag transitions
      if progressed then drive dag id bound transitions
      else return transitions

/-! ## The three passes over a wave -/

/-- PASS 1: drive every job up to Running. -/
def pass1 (dag : Dag) : List JobId → List TransitionEvent → Sched (List TransitionEvent)
  | [], transitions => return transitions
  | id :: wave, transitions => do
    lock (.seed id)
    let transitions ← drive dag id 6 transitions
    pass1 dag wave transitions

/-- Spawn one task for every id. -/
def spawnAll : List JobId → List Task → Sched (List Task)
  | [], tasks => return tasks
  | id :: ids, tasks => do
    let (job, timeout) ← lock (.lookupJob id)
    let task ← lock (.spawn id job timeout)
    spawnAll ids (tasks ++ [task])

/-- Execute the jobs and await every task. -/
def executeConcurrent (ids : List JobId) : Sched (List (JobId × ExecResult)) := do
  let tasks ← spawnAll ids []
  lock (.join tasks)

/-- Apply one outcome to the phases, the side state and the budget. -/
def applyExecutionResult (id : JobId) (result : ExecResult) (transitions : List TransitionEvent) :
    Sched (List TransitionEvent) :=
  match result with
  | .ok () => do
    let transitions ← dispatch id .executionSucceeded transitions
    lock (.clearFailures id)
    lock (.release id)
    return transitions
  | .error () => do
    lock (.recordFailure id)
    let transitions ← dispatch id .executionFailed transitions
    lock (.release id)
    return transitions

def applyAll : List (JobId × ExecResult) → List TransitionEvent → Sched (List TransitionEvent)
  | [], transitions => return transitions
  | (id, result) :: results, transitions => do
    let transitions ← applyExecutionResult id result transitions
    applyAll results transitions

/-- PASS 2: execute every Running job of the wave and apply the outcomes. -/
def pass2 (wave : List JobId) (transitions : List TransitionEvent) :
    Sched (List TransitionEvent) := do
  let runningIds ← lock (.runningOf wave)
  if runningIds.isEmpty then return transitions
  else do
    let results ← executeConcurrent runningIds
    applyAll results transitions

/-- PASS 3: terminal cleanup after the executions. -/
def pass3 (dag : Dag) : List JobId → List TransitionEvent → Sched (List TransitionEvent)
  | [], transitions => return transitions
  | id :: wave, transitions => do
    let transitions ← drive dag id 3 transitions
    pass3 dag wave transitions

def runWaves (dag : Dag) : List (List JobId) → List TransitionEvent →
    Sched (List TransitionEvent)
  | [], transitions => return transitions
  | wave :: waves, transitions => do
    let transitions ← pass1 dag wave transitions
    let transitions ← pass2 wave transitions
    let transitions ← pass3 dag wave transitions
    runWaves dag waves transitions

/-! ## Receipts -/

/-- `stable_job_key` of the scheduler crate, which leaves the scope out. -/
def unhealedKey (id : JobId PathBuf) : String :=
  let subject := match id.subject with
    | .none => ""
    | .repo r => "repo:" ++ r
    | .org o => "org:" ++ o
    | .path p => "path:" ++ p.display
    | .pinned s => "pin:" ++ s
  id.kind.name ++ "|" ++ subject

/-- The jobs that need the operator's attention. `rank` is the iteration order of `phases`, and its keys are
spelled as `spelling` says. -/
def collectUnhealed (rank : JobId → Nat) (spelling : Spelling) (phases : Map JobId JobPhase) :
    List UnhealedDrift :=
  let stuck := (phases.iterate rank).filter fun entry =>
    entry.2 = .deadlettered || entry.2 = .waitingForOperator
  let out := stuck.map fun entry => ⟨entry.1, entry.2, 0⟩
  out.insertionSort fun a b => unhealedKey (spelling.of a.jobId) ≤ unhealedKey (spelling.of b.jobId)

/-- Drive the graph one tick forward. -/
def tick (dag : Dag) : Sched TickReceipt := do
  let startedAt ← lock .now
  match ← lock (.waves dag) with
  | .error e => .fail (.topology e)
  | .ok waves => do
    let transitions ← runWaves dag waves []
    let snapshot ← lock .snapshotInner
    let (rank, spelling) ← lock .hashOrder
    return {
      tickAt := startedAt
      phaseCounts := snapshot.phaseCounts
      transitionsThisTick := transitions
      unhealed := collectUnhealed rank spelling snapshot.phases }

/-! ## The other calls -/

/-- What an operator transition does once it has read the phase `source`. -/
def operatorTransitionFrom (id : JobId) (target : JobPhase) (reason : TransitionReason)
    (source : JobPhase) : Sched Unit :=
  match advance source (.operatorTransition target) with
  | .error e => .fail (.illegalTransition e)
  | .ok phase => do
    lock (.overwrite id phase)
    let time ← lock .now
    lock (.emit time id source phase reason)

/-- External operator transition: read, decide, write and emit, each on its own. -/
def operatorTransition (id : JobId) (target : JobPhase) (reason : TransitionReason) :
    Sched Unit := do
  let source ← lock (.phaseOf id)
  operatorTransitionFrom id target reason source

/-- The public calls of the scheduler. -/
inductive Call
  | installBudget (budget : BudgetTree)
  | registerGate (kind : JobKindId) (gate : Gate)
  | registerRetryPolicy (kind : JobKindId) (policy : RetryPolicy)
  | registerJob (job : ErasedJob)
  | setTimeout (id : JobId) (timeout : Duration)
  | operatorTransition (id : JobId) (target : JobPhase) (reason : TransitionReason)
  | snapshotState
  | restoreState (saved : SchedulerSnapshot)
  | tick (dag : Dag)
  | snapshot

/-- The calls that build a scheduler up. -/
def Call.registers : Call → Bool
  | .registerJob _ | .registerGate _ _ | .registerRetryPolicy _ _ | .setTimeout _ _ => true
  | _ => false

/-- The calls that come before the first tick. -/
def Call.prepares : Call → Bool
  | .installBudget _ => true
  | call => call.registers

theorem Call.prepares_of_registers {call : Call} (h : call.registers = true) :
    call.prepares = true := by
  cases call with
  | installBudget budget => rfl
  | _ => exact h

/-- The program of a call, run for its effect. -/
def Call.prog : Call → Sched Unit
  | .installBudget budget => lock (.installBudget budget)
  | .registerGate kind gate => lock (.registerGate kind gate)
  | .registerRetryPolicy kind policy => lock (.registerRetryPolicy kind policy)
  | .registerJob job => lock (.registerJob job)
  | .setTimeout id timeout => lock (.setTimeout id timeout)
  | .operatorTransition id target reason => Shigoto.operatorTransition id target reason
  | .snapshotState => (lock .snapshotState).discard
  | .restoreState saved => lock (.restoreState saved)
  | .tick dag => (Shigoto.tick dag).discard
  | .snapshot => (lock .snapshotInner).discard

/-- The scheduler together with the log of the commands issued to it. -/
abbrev SchedMachine := Machine schedInterface InProcessScheduler

abbrev SchedEvent := Event schedInterface InProcessScheduler

/-- A scheduler to which nothing has been done yet. -/
def InProcessScheduler.start (s : InProcessScheduler) : SchedMachine := ⟨s, []⟩

/-- Issue calls one after the other; a call that fails does not stop the next. -/
def runCalls (w : World) (calls : List Call) (m : SchedMachine) : SchedMachine :=
  execAll (handle w) 0 (calls.map Call.prog) m

theorem runCalls_append (w : World) (calls calls' : List Call) (m : SchedMachine) :
    runCalls w (calls ++ calls') m = runCalls w calls' (runCalls w calls m) := by
  simp [runCalls, execAll_append]

/-! ## Sample inputs

A world in which time stands still, and jobs that end the same way every time. -/

namespace Sample

/-- `toposort` gives this order for isolated nodes, and for edges that go up in a chain. -/
def toposort : Toposort := fun g =>
  if g.edges = [] then .ok (List.range g.nodes.length).reverse else .ok (List.range g.nodes.length)

def world : World where
  clock := fun _ => 0
  order := fun _ _ => 0
  spelling := fun _ => .plain
  toposort := toposort
  floatJitter := fun base _ _ => base

/-- The same world, for graphs that are built along their edges. -/
def agedWorld : World := { world with toposort := byAge }

/-- A job that ends at once. -/
def job (name : String) (outcome : ExecOutcome) : ErasedJob :=
  ⟨jobId name, fun _ => ⟨⟨0⟩, outcome⟩⟩

/-- One slot for the whole scheduler. -/
def oneSlot : BudgetTree := { BudgetTree.new with global := some ⟨1⟩ }

/-- Register both jobs and tick once on a graph. -/
def onceOn (dag : Dag) (a b : ExecOutcome) : List Call :=
  [.registerJob (job "a" a), .registerJob (job "b" b), .tick dag]

end Sample

end Shigoto
