import Shigoto.Budget
import Shigoto.Gate
import Shigoto.Retry
import Shigoto.Atomic.Prog

/-!
# The scheduler's shared state and its critical sections

`InProcessScheduler` keeps its state behind a read-write lock and its budget behind a mutex. A
`Cmd` is one thing the code does while it holds a lock, or one question it asks of the outside (the
clock, a gate, a retry policy, the iteration order of a hash map, the executed jobs). `effect` is
what each of them answers and does. Between two of them another caller may act.

The outside is a `World`. What it answers depends on `time`, the number of commands issued so far,
so a clock may do anything and a hash map may be iterated in a different order each time.
-/

namespace Shigoto

open Atomic

/-! ## Jobs and their executions -/

inductive ExecOutcome
  | ok
  | err
  | panic
  deriving DecidableEq, Repr

/-- One run of a job: how long a timer around it sees it take, and how it ended. -/
structure Execution where
  elapsed : Duration
  outcome : ExecOutcome
  deriving DecidableEq, Repr

/-- A registered job. What an execution does depends on when it is started. -/
structure ErasedJob where
  id : JobId
  execute : Nat → Execution

/-- `Result<(), ()>` of an execution. -/
abbrev ExecResult := Except Unit Unit

/-- A spawned task. A task that panics yields no result. -/
structure Task where
  id : JobId
  result : Option ExecResult
  deriving DecidableEq

def ExecOutcome.result : ExecOutcome → Option ExecResult
  | .ok => some (.ok ())
  | .err => some (.error ())
  | .panic => none

/-- `tokio::time::timeout` around an execution: a run that ends in time counts as it ended, any
other is an error. The timer polls the job before it looks at the clock, so a run that never yields ends in
time however long it takes. -/
def Execution.within (timeout : Option Duration) (x : Execution) : Option ExecResult :=
  match timeout with
  | some d => if x.elapsed.nanos ≤ d.nanos then x.outcome.result else some (.error ())
  | none => x.outcome.result

/-! ## State -/

structure SchedulerState where
  phases : Map JobId JobPhase
  jobs : Map JobId ErasedJob
  /-- Per-job timeout overrides. -/
  timeouts : Map JobId Duration
  /-- Per-kind gate registry. -/
  gates : Map JobKindId (List Gate)
  retryPolicies : Map JobKindId RetryPolicy
  /-- Authoritative attempt counter per job. -/
  attempts : Map JobId UInt32
  /-- Per-job failure history, capped. -/
  failureHistory : Map JobId (List FailureRecord)

structure InProcessScheduler where
  state : SchedulerState
  budget : BudgetTree
  tool : String
  /-- What the emitter received, newest last. -/
  emitted : List TransitionEvent
  /-- Number of commands issued so far. -/
  time : Nat

/-- `InProcessScheduler::new`. -/
def InProcessScheduler.new (tool : String) : InProcessScheduler where
  state := ⟨∅, ∅, ∅, ∅, ∅, ∅, ∅⟩
  budget := .new
  tool := tool
  emitted := []
  time := 0

/-- The phase of a job in the scheduler. -/
def InProcessScheduler.phase (s : InProcessScheduler) (id : JobId) : JobPhase :=
  phaseIn s.state.phases id

/-- What the scheduler does not decide. -/
structure World where
  clock : Nat → DateTime
  /-- Iteration order of hash maps, and completion order of spawned tasks. -/
  order : Nat → JobId → Nat
  /-- How the keys of the phase map are spelled: as in the call that inserted them. -/
  spelling : Nat → Spelling
  toposort : Toposort
  floatJitter : UInt64 → F64 → UInt32 → UInt64

/-! ## Durable snapshots -/

/-- One persisted job's progress. As with ids, what is written down is spelled. -/
structure StoredJobState (P : Type := Components) where
  id : JobId P
  phase : JobPhase
  attempts : UInt32
  failureHistory : List FailureRecord
  deriving DecidableEq, Repr

structure SchedulerSnapshot (P : Type := Components) where
  jobs : List (StoredJobState P)
  deriving DecidableEq, Repr

def StoredJobState.key (job : StoredJobState PathBuf) : StoredJobState :=
  ⟨job.id.key, job.phase, job.attempts, job.failureHistory⟩

def StoredJobState.spell (spelling : Spelling) (job : StoredJobState) : StoredJobState PathBuf :=
  ⟨spelling.of job.id, job.phase, job.attempts, job.failureHistory⟩

/-- What the scheduler sees of a snapshot that was read. -/
def SchedulerSnapshot.key (snapshot : SchedulerSnapshot PathBuf) : SchedulerSnapshot :=
  ⟨snapshot.jobs.map StoredJobState.key⟩

def SchedulerSnapshot.spell (spelling : Spelling) (snapshot : SchedulerSnapshot) :
    SchedulerSnapshot PathBuf :=
  ⟨snapshot.jobs.map (·.spell spelling)⟩

@[simp] theorem StoredJobState.key_spell (spelling : Spelling) (job : StoredJobState) :
    (job.spell spelling).key = job := by
  simp [spell, key, spelling.key_of]

@[simp] theorem SchedulerSnapshot.key_spell (spelling : Spelling) (snapshot : SchedulerSnapshot) :
    (snapshot.spell spelling).key = snapshot := by
  simp [spell, key, Function.comp_def]

/-- Project the live maps into a snapshot. `rank` is the iteration order of `phases`. -/
def project (rank : JobId → Nat) (phases : Map JobId JobPhase) (attempts : Map JobId UInt32)
    (failureHistory : Map JobId (List FailureRecord)) : SchedulerSnapshot where
  jobs := (phases.iterate rank).map fun entry =>
    { id := entry.1
      phase := entry.2
      attempts := (attempts.get? entry.1).getD 0
      failureHistory := (failureHistory.get? entry.1).getD [] }

/-- One round of the loop of `restore_state`. -/
def SchedulerState.restore (state : SchedulerState) (job : StoredJobState) : SchedulerState :=
  { state with
    phases := state.phases.insert job.id job.phase
    attempts :=
      if job.attempts > 0 then state.attempts.insert job.id job.attempts else state.attempts
    failureHistory :=
      if job.failureHistory.isEmpty then state.failureHistory
      else state.failureHistory.insert job.id job.failureHistory }

/-! ## Commands -/

inductive Cmd
  /-- `clock.now()`. -/
  | now
  | waves (dag : Dag)
  /-- `phases.entry(id).or_insert(Pending)`. -/
  | seed (id : JobId)
  | phaseOf (id : JobId)
  /-- The registered gates of the job's kind and a copy of the phases, under one lock. -/
  | readGates (id : JobId)
  | consult (gate : Gate) (ctx : GateContext)
  | dispatch (id : JobId) (signal : Signal)
  | tryAllocate (id : JobId)
  /-- Policy, attempt and history of a failed job, under one lock. -/
  | readRetry (id : JobId)
  | decide (policy : RetryPolicy) (attempt : UInt32) (history : List FailureRecord)
  /-- The Running jobs of a wave. -/
  | runningOf (wave : List JobId)
  | lookupJob (id : JobId)
  | spawn (id : JobId) (job : Option ErasedJob) (timeout : Option Duration)
  /-- Await all tasks; the answer lists the results in order of completion. -/
  | join (tasks : List Task)
  | clearFailures (id : JobId)
  | recordFailure (id : JobId)
  | release (id : JobId)
  | snapshotInner
  /-- The iteration order of the copied phase map, and how its keys are spelled. -/
  | hashOrder
  /-- `operator_transition`'s write. -/
  | overwrite (id : JobId) (phase : JobPhase)
  /-- `operator_transition`'s event. -/
  | emit (time : DateTime) (id : JobId) (source target : JobPhase) (reason : TransitionReason)
  | snapshotState
  | restoreState (snapshot : SchedulerSnapshot)
  | registerJob (job : ErasedJob)
  | setTimeout (id : JobId) (timeout : Duration)
  | registerGate (kind : JobKindId) (gate : Gate)
  | registerRetryPolicy (kind : JobKindId) (policy : RetryPolicy)
  | installBudget (budget : BudgetTree)

abbrev Cmd.Resp : Cmd → Type
  | .now => DateTime
  | .waves _ => Except DagError (List (List JobId))
  | .phaseOf _ => JobPhase
  | .readGates _ => List Gate × Snapshot
  | .consult _ _ => GateOutcome
  | .dispatch _ _ => Except IllegalTransition TransitionEvent
  | .tryAllocate _ => Except BudgetError Unit
  | .readRetry _ => RetryPolicy × UInt32 × List FailureRecord
  | .decide _ _ _ => RetryDecision
  | .runningOf _ => List JobId
  | .lookupJob _ => Option ErasedJob × Option Duration
  | .spawn _ _ _ => Task
  | .join _ => List (JobId × ExecResult)
  | .snapshotInner => Snapshot
  | .hashOrder => (JobId → Nat) × Spelling
  | .snapshotState => SchedulerSnapshot
  | _ => Unit

/-- The interface of the scheduler's programs. -/
abbrev schedInterface : Interface := ⟨Cmd, Cmd.Resp⟩

/-- The reason recorded for a signal. -/
def reasonFrom : Signal → TransitionReason
  | .evaluateGates _ => .gateEvaluation
  | .allocateBudget => .budgetAllocated
  | .executionSucceeded => .executionSucceeded
  | .executionFailed => .executionFailed "execute() returned Err"
  | .retryDecide (.retry _) => .retryScheduled
  | .retryDecide .deadletter => .executionFailed "retries exhausted"
  | .cancel => .cancelled
  | .timeout => .timedOut
  | .backoffElapsed => .backoffElapsed
  | .operatorTransition _ => .operatorAction "manual transition"

/-- `phases.entry(id).or_insert(Pending)`. -/
def seedPhase (phases : Map JobId JobPhase) (id : JobId) : Map JobId JobPhase :=
  match phases.get? id with
  | some _ => phases
  | none => phases.insert id .pending

/-- Drop the oldest records beyond sixteen. -/
def capHistory (history : List FailureRecord) : List FailureRecord :=
  if history.length > 16 then history.drop (history.length - 16) else history

/-- Count one more failure of `id` and record it. -/
def SchedulerState.recordFailure (state : SchedulerState) (id : JobId) (nowMs : DateTime) :
    SchedulerState :=
  let attempt := (state.attempts.get? id).getD 0 + 1
  let history := (state.failureHistory.get? id).getD []
  { state with
    attempts := state.attempts.insert id attempt
    failureHistory := state.failureHistory.insert id
      (capHistory (history ++ [.new attempt nowMs "execute() returned Err"])) }

/-- The event `dispatch` records. -/
def dispatchEvent (w : World) (s : InProcessScheduler) (id : JobId) (signal : Signal)
    (target : JobPhase) : TransitionEvent where
  time := w.clock s.time
  jobId := id
  source := s.phase id
  target := target
  reason := reasonFrom signal
  tool := s.tool

/-- What a command answers and does, not counting the passing of time. -/
def effect (w : World) : (c : Cmd) → InProcessScheduler → c.Resp × InProcessScheduler
  | .now, s => (w.clock s.time, s)
  | .waves dag, s => (dag.waves w.toposort (w.order s.time) none, s)
  | .seed id, s => ((), { s with state.phases := seedPhase s.state.phases id })
  | .phaseOf id, s => (s.phase id, s)
  | .readGates id, s => (((s.state.gates.get? id.kind).getD [], ⟨s.state.phases⟩), s)
  | .consult gate ctx, s => (gate.evaluate s.time ctx, s)
  | .dispatch id signal, s =>
    match advance (s.phase id) signal with
    | .error e => (.error e, s)
    | .ok target =>
      let event := dispatchEvent w s id signal target
      (.ok event, { s with
        state.phases := s.state.phases.insert id target
        emitted := s.emitted ++ [event] })
  | .tryAllocate id, s =>
    ((s.budget.tryAllocate id).1, { s with budget := (s.budget.tryAllocate id).2 })
  | .readRetry id, s =>
    (((s.state.retryPolicies.get? id.kind).getD .noRetry, (s.state.attempts.get? id).getD 1,
      (s.state.failureHistory.get? id).getD []), s)
  | .decide policy attempt history, s =>
    (policy.decide w.floatJitter s.time attempt history, s)
  | .runningOf wave, s =>
    (wave.filter fun id => s.state.phases.get? id = some .running, s)
  | .lookupJob id, s => ((s.state.jobs.get? id, s.state.timeouts.get? id), s)
  | .spawn id (some job) timeout, s => (⟨id, (job.execute s.time).within timeout⟩, s)
  -- an unregistered job counts as a failed execution
  | .spawn id none _, s => (⟨id, some (.error ())⟩, s)
  | .join tasks, s =>
    ((tasks.insertionSort fun a b => w.order s.time a.id ≤ w.order s.time b.id).filterMap
      fun task => task.result.map fun result => (task.id, result), s)
  | .clearFailures id, s =>
    ((), { s with
      state.attempts := s.state.attempts.erase id
      state.failureHistory := s.state.failureHistory.erase id })
  | .recordFailure id, s => ((), { s with state := s.state.recordFailure id (w.clock s.time) })
  | .release id, s => ((), { s with budget := s.budget.release id })
  | .snapshotInner, s => (⟨s.state.phases⟩, s)
  | .hashOrder, s => ((w.order s.time, w.spelling s.time), s)
  | .overwrite id phase, s => ((), { s with state.phases := s.state.phases.insert id phase })
  | .emit time id source target reason, s =>
    ((), { s with emitted := s.emitted ++ [⟨time, id, source, target, reason, s.tool⟩] })
  | .snapshotState, s =>
    (project (w.order s.time) s.state.phases s.state.attempts s.state.failureHistory, s)
  | .restoreState snapshot, s =>
    ((), { s with state := snapshot.jobs.foldl SchedulerState.restore s.state })
  | .registerJob job, s =>
    ((), { s with
      state.phases := seedPhase s.state.phases job.id
      state.jobs := s.state.jobs.insert job.id job })
  | .setTimeout id timeout, s =>
    ((), { s with state.timeouts := s.state.timeouts.insert id timeout })
  | .registerGate kind gate, s =>
    ((), { s with
      state.gates := s.state.gates.insert kind ((s.state.gates.get? kind).getD [] ++ [gate]) })
  | .registerRetryPolicy kind policy, s =>
    ((), { s with state.retryPolicies := s.state.retryPolicies.insert kind policy })
  | .installBudget budget, s => ((), { s with budget := budget })

/-- A command together with the passing of time. -/
def handle (w : World) : Handler schedInterface InProcessScheduler :=
  fun c s => ((effect w c s).1, { (effect w c s).2 with time := s.time + 1 })

end Shigoto
