import Shigoto.Scheduler.Tick
import Shigoto.Atomic.Protocol

/-!
# What a caller knows, and what it may do next

A caller of the scheduler sees only the answers to its own commands. `View` is what it makes of
them: the graph and the pass of its tick, and a `Focus`, the step it is in the middle of.
`View.Allows` is the whole control flow of the scheduler, command by command: each command is
issued in one situation only, and the view says which.

`callProtocol P` is the protocol of a caller that issues only the calls in `P`. That every program
keeps it is proved in `Shigoto.Scheduler.Conformance`.
-/

namespace Shigoto

open Atomic

/-! ## Views -/

/-- The step a caller is in the middle of. -/
inductive Focus
  | rest
  /-- `phase_of` answered. -/
  | looked (id : JobId) (phase : JobPhase)
  /-- The cohort was read; the gates `ahead` are still to be asked. -/
  | consulting (id : JobId) (phase : JobPhase) (ctx : GateContext) (ahead : List Gate)
      (outcomes : List GateOutcome)
  /-- The clock was read for a job that waits out its backoff. -/
  | clocked (id : JobId) (untilMs nowMs : DateTime)
  /-- A slot was taken and the job is not Running yet. -/
  | granted (id : JobId)
  | judging (id : JobId) (policy : RetryPolicy) (attempt : UInt32) (history : List FailureRecord)
  /-- The policy wants a retry; the clock is still to be read. -/
  | delayed (id : JobId) (after : Duration)
  | planned (id : JobId) (outcome : RetryOutcome)
  /-- PASS 2: `ids` are still to be spawned. -/
  | collecting (ids : List JobId) (tasks : List Task)
  | fetched (id : JobId) (job : Option ErasedJob) (timeout : Option Duration) (ids : List JobId)
      (tasks : List Task)
  /-- PASS 2: these results are still to be applied. -/
  | applying (results : List (JobId × ExecResult))
  /-- The failure of `id` is counted; its phase is still Running. -/
  | recorded (id : JobId) (results : List (JobId × ExecResult))
  | succeeded (id : JobId) (results : List (JobId × ExecResult))
  /-- The job left Running and still holds its slot. -/
  | releasing (id : JobId) (results : List (JobId × ExecResult))
  /-- An operator's write is done and its event is still to be emitted. -/
  | moved (id : JobId) (source target : JobPhase)
  /-- The phase table refused a signal. -/
  | refused

/-- Between two steps: nothing is owed. -/
def Focus.idle : Focus → Bool
  | .rest | .looked _ _ | .consulting _ _ _ _ _ | .clocked _ _ _ => true
  | .judging _ _ _ _ | .delayed _ _ | .planned _ _ | .applying [] => true
  | _ => false

/-- The executions of PASS 2 that have not been applied yet. -/
def Focus.flight : Focus → List JobId
  | .collecting ids tasks => ids ++ tasks.map (·.id)
  | .fetched id _ _ ids tasks => id :: ids ++ tasks.map (·.id)
  | .applying results => results.map (·.1)
  | .recorded id results => id :: results.map (·.1)
  | .succeeded _ results | .releasing _ results => results.map (·.1)
  | _ => []

/-- Where a tick stands: its graph, whether PASS 2 of the current wave is behind it, and the jobs
that PASS 1 of the current wave has come to. -/
structure Pass where
  dag : Dag
  final : Bool
  seeded : List JobId

structure View where
  pass : Pass
  focus : Focus

/-- `PASS 1` comes to a job. -/
def Pass.seed (pass : Pass) (id : JobId) : Pass :=
  { pass with final := false, seeded := if pass.final then [id] else id :: pass.seeded }

/-- After a signal was accepted. -/
def Focus.dispatched : Focus → Focus
  | .applying ((id, _) :: results) => .succeeded id results
  | .recorded id results => .releasing id results
  | _ => .rest

/-- After the clock was read. -/
def Focus.clock (focus : Focus) (nowMs : DateTime) : Focus :=
  match focus with
  | .looked id (.retrying untilMs) => .clocked id untilMs nowMs
  | .delayed id after => .planned id (.retry (nowMs + after.asMillis64))
  | focus => focus

/-- After the policy was asked. -/
def Focus.decided (focus : Focus) (decision : RetryDecision) : Focus :=
  match focus, decision with
  | .judging id _ _ _, .deadletter => .planned id .deadletter
  | .judging id _ _ _, .retry after => .delayed id after
  | focus, _ => focus

/-- What an answer adds to a view. -/
def View.next (v : View) : (c : Cmd) → c.Resp → View
  | .now => fun nowMs => { v with focus := v.focus.clock nowMs }
  | .waves dag => fun _ => ⟨⟨dag, true, []⟩, .rest⟩
  | .seed id => fun _ => ⟨v.pass.seed id, .rest⟩
  | .phaseOf id => fun phase => { v with focus := .looked id phase }
  | .readGates id => fun (gates, snapshot) =>
    match v.focus with
    | .looked _ phase =>
      { v with focus := .consulting id phase ⟨id, snapshot, v.pass.dag⟩ gates [] }
    | _ => v
  | .consult _ _ => fun outcome =>
    match v.focus with
    | .consulting id phase ctx (_ :: ahead) outcomes =>
      { v with focus := .consulting id phase ctx ahead (outcomes ++ [outcome]) }
    | _ => v
  | .dispatch _ _ => fun answer =>
    match answer with
    | .ok _ => { v with focus := v.focus.dispatched }
    | .error _ => { v with focus := .refused }
  | .tryAllocate id => fun answer =>
    match answer with
    | .ok _ => { v with focus := .granted id }
    | .error _ => { v with focus := .rest }
  | .readRetry id => fun (policy, attempt, history) =>
    { v with focus := .judging id policy attempt history }
  | .decide _ _ _ => fun decision => { v with focus := v.focus.decided decision }
  | .runningOf _ => fun ids =>
    match ids with
    | [] => ⟨{ v.pass with final := true }, .rest⟩
    | ids => ⟨{ v.pass with final := true }, .collecting ids []⟩
  | .lookupJob id => fun (job, timeout) =>
    match v.focus with
    | .collecting (_ :: ids) tasks => { v with focus := .fetched id job timeout ids tasks }
    | _ => v
  | .spawn _ _ _ => fun task =>
    match v.focus with
    | .fetched _ _ _ ids tasks => { v with focus := .collecting ids (tasks ++ [task]) }
    | _ => v
  | .join _ => fun results => { v with focus := .applying results }
  | .recordFailure id => fun _ =>
    match v.focus with
    | .applying (_ :: results) => { v with focus := .recorded id results }
    | _ => v
  | .clearFailures id => fun _ =>
    match v.focus with
    | .succeeded _ results => { v with focus := .releasing id results }
    | _ => v
  | .release _ => fun _ =>
    match v.focus with
    | .releasing _ results => { v with focus := .applying results }
    | _ => v
  | .overwrite id phase => fun _ =>
    match v.focus with
    | .looked _ source => { v with focus := .moved id source phase }
    | _ => v
  -- an operator's event, the calls of one command, the end of a tick: what was read is forgotten
  | _ => fun _ => { v with focus := .rest }

/-- The view of a caller that has done nothing yet. -/
def View.start : View := ⟨⟨.new, true, []⟩, .rest⟩

/-- The view that a history amounts to. -/
def view : History schedInterface → View
  | [] => .start
  | x :: ℓ => (view ℓ).next x.cmd x.answer

@[simp] theorem view_cons (c : Cmd) (r : c.Resp) (ℓ : History schedInterface) :
    view (⟨c, r⟩ :: ℓ) = (view ℓ).next c r := rfl

/-! ## The protocol -/

/-- `Due pass id focus signal`: in this focus, `signal` is to be sent to `id`. -/
inductive Due (pass : Pass) (id : JobId) : Focus → Signal → Prop
  | gates (phase : JobPhase) (ctx : GateContext) (outcomes : List GateOutcome)
      (news : ¬ (phase = .gated ∧ cohortAggregate ctx outcomes = .someWaiting)) :
      Due pass id (.consulting id phase ctx [] outcomes)
        (.evaluateGates (cohortAggregate ctx outcomes))
  | backoff (untilMs nowMs : DateTime) (elapsed : ¬ nowMs < untilMs) :
      Due pass id (.clocked id untilMs nowMs) .backoffElapsed
  | slot (seeded : pass.final = false → id ∈ pass.seeded) :
      Due pass id (.granted id) .allocateBudget
  | retry (outcome : RetryOutcome) : Due pass id (.planned id outcome) (.retryDecide outcome)
  | success (results : List (JobId × ExecResult)) :
      Due pass id (.applying ((id, .ok ()) :: results)) .executionSucceeded
  | failure (results : List (JobId × ExecResult)) :
      Due pass id (.recorded id results) .executionFailed

/-- Between two calls: nothing is owed, and no wave is under way. -/
def View.Resting (v : View) : Prop := v.focus.idle = true ∧ v.pass.final = true

/-- The commands that may come next. -/
def View.Allows (v : View) : Cmd → Prop
  | .now => v.focus.idle = true ∨ ∃ id source target, v.focus = .moved id source target
  | .readGates id => v.focus = .looked id .pending ∨ v.focus = .looked id .gated
  | .consult gate ctx =>
    ∃ id phase ahead outcomes, v.focus = .consulting id phase ctx (gate :: ahead) outcomes
  | .dispatch id signal => Due v.pass id v.focus signal
  | .tryAllocate id =>
    v.focus = .looked id .ready ∧ (v.pass.final = false → id ∈ v.pass.seeded)
  | .readRetry id => ∃ n, v.focus = .looked id (.failed n)
  | .decide policy attempt history => ∃ id, v.focus = .judging id policy attempt history
  | .runningOf wave =>
    v.focus.idle = true ∧ wave.Nodup ∧ (v.pass.final = false → ∀ id ∈ v.pass.seeded, id ∈ wave)
  | .lookupJob id => ∃ ids tasks, v.focus = .collecting (id :: ids) tasks
  | .spawn id job timeout => ∃ ids tasks, v.focus = .fetched id job timeout ids tasks
  | .join tasks => v.focus = .collecting [] tasks
  | .recordFailure id => ∃ results, v.focus = .applying ((id, .error ()) :: results)
  | .clearFailures id => ∃ results, v.focus = .succeeded id results
  | .release id => ∃ results, v.focus = .releasing id results
  | .overwrite id phase =>
    ∃ source, v.focus = .looked id source ∧
      advance source (.operatorTransition phase) = .ok phase
  | .emit _ id source target _ => v.focus = .moved id source target
  | .seed _ | .phaseOf _ => v.focus.idle = true
  -- the beginning and the end of a tick, and the other calls
  | _ => v.Resting

/-- The commands that only calls in `P` issue; `dag` is the graph of the current tick. -/
def Cmd.Permitted (P : Call → Prop) (dag : Dag) : Cmd → Prop
  | .now | .phaseOf _ | .emit _ _ _ _ _ | .snapshotInner | .hashOrder | .snapshotState => True
  | .waves dag' => P (.tick dag')
  | .overwrite id phase => ∃ reason, P (.operatorTransition id phase reason)
  | .restoreState saved => P (.restoreState saved)
  | .registerJob job => P (.registerJob job)
  | .setTimeout id timeout => P (.setTimeout id timeout)
  | .registerGate kind gate => P (.registerGate kind gate)
  | .registerRetryPolicy kind policy => P (.registerRetryPolicy kind policy)
  | .installBudget budget => P (.installBudget budget)
  | _ => P (.tick dag)

/-- The `(id, result)` pair a task yields. -/
def Task.yield (task : Task) : Option (JobId × ExecResult) :=
  task.result.map fun result => (task.id, result)

/-- What is known of an answer in advance. -/
def Cmd.Answers : (c : Cmd) → c.Resp → Prop
  | .waves _ => fun answer => ∀ waves, answer = .ok waves → waves.flatten.Nodup
  | .runningOf wave => fun ids => ids.Sublist wave
  | .spawn id _ _ => fun task => task.id = id
  | .join tasks => fun results => results.Perm (tasks.filterMap Task.yield)
  | _ => fun _ => True

/-- The protocol of a caller that issues only calls in `P`. -/
def callProtocol (P : Call → Prop) : Protocol schedInterface where
  allows ℓ c := (view ℓ).Allows c ∧ c.Permitted P (view ℓ).pass.dag
  answers := Cmd.Answers

theorem answers_handle (w : World) (P : Call → Prop) (c : Cmd) (s : InProcessScheduler) :
    (callProtocol P).answers c (handle w c s).1 := by
  show c.Answers (handle w c s).1
  cases c with
  | waves dag => exact fun waves hwaves => Dag.waves_nodup hwaves
  | runningOf wave => exact List.filter_sublist
  | spawn id job timeout => cases job <;> rfl
  | join tasks => exact (List.perm_insertionSort _ tasks).filterMap Task.yield
  | _ => exact True.intro

end Shigoto
