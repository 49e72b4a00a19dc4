import Shigoto.Scheduler.Completion

/-!
# The outputs of jobs

The scheduler knows of an execution only whether it succeeded. A `RecordingJob` keeps its output in a sink
of its own, from which a consumer drains the outputs between two calls. `Capture` runs calls and drains.

On a run without restores a job that is Succeeded has its output in exactly one of the maps that the consumer
has drained or can still drain, and any other job in none (`outputs_delivered_once`).
-/

namespace Shigoto

open Atomic

variable {O : Type}

/-! ## Sinks of outputs -/

inductive OutputSink
  | null
  | inMemory (storage : Nat)

/-- The storages of the in-memory sinks. -/
abbrev Storages (O : Type) := Nat → Map JobId O

/-- `OutputSink::record`. The null sink discards the output. -/
def OutputSink.record (id : JobId) (output : O) (storages : Storages O) : OutputSink → Storages O
  | .null => storages
  | .inMemory storage => fun i => if i = storage then (storages i).insert id output else storages i

/-- `InMemorySink::drain`. -/
def Storages.drain (storage : Nat) (storages : Storages O) : Map JobId O × Storages O :=
  (storages storage, fun i => if i = storage then ∅ else storages i)

/-! ## Jobs with an output -/

inductive Outcome (O : Type)
  | ok (output : O)
  | err
  | panic

/-- One run of the body of a job: how long it took and how it ended. -/
structure BodyRun (O : Type) where
  elapsed : Duration
  outcome : Outcome O

structure RecordingJob (O : Type) where
  kind : JobKindId
  scope : JobScope
  subject : JobSubject
  outputSink : Option OutputSink
  /-- What the body does when it is started at a moment. -/
  executeBody : Nat → BodyRun O

def RecordingJob.id (job : RecordingJob O) : JobId := ⟨job.scope, job.kind, job.subject⟩

/-- `Job::execute`: run the body, and record its output before it is returned. -/
def RecordingJob.execute (job : RecordingJob O) (moment : Nat) (storages : Storages O) :
    BodyRun O × Storages O :=
  let run := job.executeBody moment
  match run.outcome with
  | .ok output =>
    match job.outputSink with
    | some sink => (run, sink.record job.id output storages)
    | none => (run, storages)
  | _ => (run, storages)

def Outcome.erase : Outcome O → ExecOutcome
  | .ok _ => .ok
  | .err => .err
  | .panic => .panic

/-- `ErasedJob::execute_erased`: the output is dropped. -/
def RecordingJob.erased (job : RecordingJob O) : ErasedJob where
  id := job.id
  execute moment := ⟨(job.executeBody moment).elapsed, (job.executeBody moment).outcome.erase⟩

/-- An execution that takes longer than its timeout is dropped before it records anything. -/
def RecordingJob.executeWithin (job : RecordingJob O) (timeout : Option Duration) (moment : Nat)
    (storages : Storages O) : Storages O :=
  match timeout with
  | some d =>
    if (job.executeBody moment).elapsed.nanos ≤ d.nanos then (job.execute moment storages).2 else storages
  | none => (job.execute moment storages).2

/-! ## Runs with a consumer -/

/-- What happens to a scheduler and to the sinks of its jobs. -/
inductive Act (O : Type)
  | register (job : RecordingJob O)
  | call (call : Call)
  | drain (storage : Nat)

structure Capture (O : Type) where
  scheduler : InProcessScheduler
  /-- The registered jobs that record their output. -/
  recorders : Map JobId (RecordingJob O)
  storages : Storages O
  /-- What drains have returned, newest first. -/
  drained : List (Nat × Map JobId O)

/-- What an execution in the log does to the sinks. -/
def recordRun (recorders : Map JobId (RecordingJob O)) (e : SchedEvent) (storages : Storages O) :
    Storages O :=
  match e.cmd with
  | .spawn id (some _) timeout =>
    match recorders.get? id with
    | some job => job.executeWithin timeout e.pre.time storages
    | none => storages
  | _ => storages

/-- The tasks of a call have ended when it returns. -/
def Capture.issue (w : World) (call : Call) (c : Capture O) : Capture O :=
  let m := runCalls w [call] c.scheduler.start
  { c with scheduler := m.state, storages := m.log.foldr (recordRun c.recorders) c.storages }

def Capture.step (w : World) (c : Capture O) : Act O → Capture O
  | .register job =>
    { c.issue w (.registerJob job.erased) with recorders := c.recorders.insert job.id job }
  -- a job that is registered without an output takes the place of the one before it
  | .call (.registerJob job) =>
    { c.issue w (.registerJob job) with recorders := c.recorders.erase job.id }
  | .call call => c.issue w call
  | .drain storage =>
    let (outputs, storages) := c.storages.drain storage
    { c with storages, drained := (storage, outputs) :: c.drained }

def Capture.new (tool : String) : Capture O := ⟨.new tool, ∅, fun _ => ∅, []⟩

def capture (w : World) (tool : String) (acts : List (Act O)) : Capture O :=
  acts.foldl (Capture.step w) (.new tool)

/-- The outputs of a job that were drained from a storage or are still in it, newest first. -/
def Capture.delivered (storage : Nat) (id : JobId) (c : Capture O) : List O :=
  (c.storages storage :: (c.drained.filter fun x => x.1 = storage).map (·.2)).filterMap (·.get? id)

/-- A job of this id records to this storage, and no snapshot is restored. -/
def Act.records (storage : Nat) (id : JobId) : Act O → Prop
  | .register job => job.id = id → job.outputSink = some (.inMemory storage)
  | .call (.registerJob job) => job.id ≠ id
  | .call (.restoreState _) => False
  | _ => True

/-! ## One execution -/

/-- The output that an execution gets to record. -/
def RecordingJob.output (job : RecordingJob O) (timeout : Option Duration) (moment : Nat) : Option O :=
  match (job.executeBody moment).outcome with
  | .ok output =>
    if timeout.all fun d => (job.executeBody moment).elapsed.nanos ≤ d.nanos then some output else none
  | _ => none

section

variable {job : RecordingJob O} {timeout : Option Duration} {moment : Nat} {storages : Storages O}
  {storage : Nat} {id : JobId}

/-- An output is recorded exactly where the scheduler is told of a success. -/
theorem RecordingJob.isSome_output (job : RecordingJob O) (timeout : Option Duration) (moment : Nat) :
    (job.output timeout moment).isSome = true ↔
      (job.erased.execute moment).within timeout = some (.ok ()) := by
  rw [output, show job.erased.execute moment =
    ⟨(job.executeBody moment).elapsed, (job.executeBody moment).outcome.erase⟩ from rfl]
  generalize job.executeBody moment = run
  obtain ⟨elapsed, outcome⟩ := run
  cases outcome with
  | ok output =>
    cases timeout with
    | none => exact iff_of_true rfl rfl
    | some d =>
      by_cases h : elapsed.nanos ≤ d.nanos <;>
        simp [h, Execution.within, Outcome.erase, ExecOutcome.result]
  | _ => cases timeout <;> simp [Execution.within, Outcome.erase, ExecOutcome.result]

theorem RecordingJob.ok_of_output {output : O} (h : job.output timeout moment = some output) :
    (job.executeBody moment).outcome = .ok output := by
  unfold RecordingJob.output at h
  cases hrun : (job.executeBody moment).outcome with
  | ok output' =>
    rw [hrun] at h
    obtain ⟨-, rfl⟩ : _ ∧ output' = output := by simpa using h
    rfl
  | _ =>
    rw [hrun] at h
    cases h

/-- What an execution does to the sinks. -/
theorem RecordingJob.executeWithin_eq (job : RecordingJob O) (timeout : Option Duration) (moment : Nat)
    (storages : Storages O) : job.executeWithin timeout moment storages =
      match job.output timeout moment, job.outputSink with
      | some output, some sink => sink.record job.id output storages
      | _, _ => storages := by
  unfold executeWithin execute output
  generalize job.executeBody moment = run
  obtain ⟨elapsed, outcome⟩ := run
  cases outcome with
  | ok output =>
    cases timeout with
    | none => cases job.outputSink <;> rfl
    | some d => by_cases h : elapsed.nanos ≤ d.nanos <;> cases job.outputSink <;> simp [h]
  | _ => cases timeout <;> simp

theorem OutputSink.get?_record (sink : OutputSink) {id' : JobId} (hne : id ≠ id') (output : O) :
    (sink.record id' output storages storage).get? id = (storages storage).get? id := by
  cases sink with
  | null => rfl
  | inMemory storage' =>
    by_cases h : storage = storage' <;> simp [record, h, Map.get?_insert_ne _ _ hne]

theorem RecordingJob.get?_executeWithin_ne (hne : id ≠ job.id) :
    (job.executeWithin timeout moment storages storage).get? id = (storages storage).get? id := by
  rw [executeWithin_eq]
  split
  · next sink _ _ => exact sink.get?_record hne _
  · rfl

/-- What a wired job leaves in its storage. -/
theorem RecordingJob.get?_executeWithin (hsink : job.outputSink = some (.inMemory storage)) :
    (job.executeWithin timeout moment storages storage).get? job.id =
      (job.output timeout moment).or ((storages storage).get? job.id) := by
  rw [executeWithin_eq, hsink]
  cases job.output timeout moment with
  | none => rfl
  | some output => simp [OutputSink.record]

end

/-! ## Results that are owed -/

/-- The results of PASS 2 that are known and not applied yet. -/
def Focus.known : Focus → List (JobId × ExecResult)
  | .collecting _ tasks | .fetched _ _ _ _ tasks => tasks.filterMap Task.yield
  | .applying results | .succeeded _ results | .releasing _ results => results
  | .recorded id results => (id, .error ()) :: results
  | _ => []

theorem Focus.known_of_idle {focus : Focus} (h : focus.idle = true) : focus.known = [] := by
  cases focus with
  | collecting ids tasks => cases h
  | fetched id job timeout ids tasks => cases h
  | applying results =>
    cases results with
    | nil => rfl
    | cons x results => cases h
  | recorded id results => cases h
  | succeeded id results => cases h
  | releasing id results => cases h
  | _ => rfl

/-- A signal that is due applies the next result, or nothing is owed. -/
theorem Due.known {pass : Pass} {focus : Focus} {id : JobId} {signal : Signal}
    (hdue : Due pass id focus signal) :
    (∃ result, signal = ExecResult.signal result ∧ focus.known = (id, result) :: focus.dispatched.known) ∨
      (∀ result, signal ≠ ExecResult.signal result) ∧ focus.known = [] ∧ focus.dispatched.known = [] := by
  cases hdue with
  | success results => exact .inl ⟨.ok (), rfl, rfl⟩
  | failure results => exact .inl ⟨.error (), rfl, rfl⟩
  | gates phase ctx outcomes news =>
    exact .inr ⟨fun result => by cases result <;> simp [ExecResult.signal], rfl, rfl⟩
  | backoff untilMs nowMs elapsed =>
    exact .inr ⟨fun result => by cases result <;> simp [ExecResult.signal], rfl, rfl⟩
  | slot seeded => exact .inr ⟨fun result => by cases result <;> simp [ExecResult.signal], rfl, rfl⟩
  | retry outcome => exact .inr ⟨fun result => by cases result <;> simp [ExecResult.signal], rfl, rfl⟩

/-! ## The balance of successes -/

/-- How many of these results are successes of a job. -/
def successes (id : JobId) (results : List (JobId × ExecResult)) : Nat :=
  results.countP fun x => x.1 = id ∧ x.2.isOk

/-- Whether a job is Succeeded, as a number. -/
def InProcessScheduler.done (s : InProcessScheduler) (id : JobId) : Nat :=
  if s.phase id = .succeeded then 1 else 0

theorem successes_yield (id : JobId) (task : Task) : successes id ([task].filterMap Task.yield) =
    if task.id = id ∧ task.result = some (.ok ()) then 1 else 0 := by
  obtain ⟨id', result⟩ := task
  rcases result with - | ⟨⟨⟩⟩ | ⟨⟨⟩⟩ <;> by_cases h : id' = id <;>
    simp [successes, Task.yield, Except.isOk, Except.toBool, h]

section

variable {w : World} {v : View} {s : InProcessScheduler} {c : Cmd} {m : SchedMachine} {id : JobId}

/-- Apart from a spawn and a signal, a command leaves what is owed. -/
theorem View.known_next {r : c.Resp} (hallows : v.Allows c) (hr : c.Answers r)
    (hspawn : ∀ id job timeout, c ≠ .spawn id job timeout) (hdispatch : ∀ id signal, c ≠ .dispatch id signal) :
    (v.next c r).focus.known.Perm v.focus.known := by
  have hidle : v.focus.idle = true → (v.next c r).focus.known = [] →
      (v.next c r).focus.known.Perm v.focus.known := by
    intro hidle hnext
    rw [hnext, Focus.known_of_idle hidle]
  obtain ⟨pass, focus⟩ := v
  cases c with
  | spawn id job timeout => exact absurd rfl (hspawn id job timeout)
  | dispatch id signal => exact absurd rfl (hdispatch id signal)
  | now =>
    cases focus with
    | looked id phase => cases phase <;> exact .refl _
    | _ => exact .refl _
  | readGates id =>
    rcases hallows with h | h <;> cases h <;> exact .refl _
  | consult gate ctx =>
    obtain ⟨id, phase, ahead, outcomes, rfl⟩ := hallows
    exact .refl _
  | tryAllocate id =>
    obtain ⟨rfl, -⟩ : focus = .looked id .ready ∧ _ := hallows
    cases r <;> exact .refl _
  | readRetry id =>
    obtain ⟨n, rfl⟩ : ∃ n, focus = .looked id (.failed n) := hallows
    exact .refl _
  | decide policy attempt history =>
    obtain ⟨id, rfl⟩ : ∃ id, focus = .judging id policy attempt history := hallows
    cases r <;> exact .refl _
  | runningOf wave =>
    refine hidle hallows.1 ?_
    cases r <;> rfl
  | lookupJob id =>
    obtain ⟨ids, tasks, rfl⟩ : ∃ ids tasks, focus = .collecting (id :: ids) tasks := hallows
    exact .refl _
  | join tasks =>
    obtain rfl : focus = .collecting [] tasks := hallows
    exact hr
  | recordFailure id =>
    obtain ⟨results, rfl⟩ : ∃ results, focus = .applying ((id, .error ()) :: results) := hallows
    exact .refl _
  | clearFailures id =>
    obtain ⟨results, rfl⟩ : ∃ results, focus = .succeeded id results := hallows
    exact .refl _
  | release id =>
    obtain ⟨results, rfl⟩ : ∃ results, focus = .releasing id results := hallows
    exact .refl _
  | overwrite id phase =>
    obtain ⟨source, rfl, -⟩ := hallows
    exact .refl _
  | emit time id source target reason =>
    obtain rfl : focus = .moved id source target := hallows
    exact .refl _
  | seed id => exact hidle hallows rfl
  | phaseOf id => exact hidle hallows rfl
  | _ => exact hidle hallows.1 rfl

theorem View.known_spawn {job : Option ErasedJob} {timeout : Option Duration}
    (hallows : v.Allows (.spawn id job timeout)) (task : Task) :
    (v.next (.spawn id job timeout) task).focus.known = v.focus.known ++ [task].filterMap Task.yield := by
  obtain ⟨pass, focus⟩ := v
  obtain ⟨ids, tasks, rfl⟩ : ∃ ids tasks, focus = .fetched id job timeout ids tasks := hallows
  exact List.filterMap_append

/-- Only a success leads to Succeeded. -/
theorem Due.signal_of_succeeded {pass : Pass} {focus : Focus} {signal : Signal} {phase : JobPhase}
    (hdue : Due pass id focus signal) (hadvance : advance phase signal = .ok .succeeded) :
    signal = .executionSucceeded := by
  cases hdue with
  | success results => rfl
  | failure results => cases (advance_executionFailed_iff.mp hadvance).2
  | gates phase' ctx outcomes news =>
    have htarget := (advance_evaluateGates_iff.mp hadvance).2
    generalize cohortAggregate ctx outcomes = aggregate at htarget
    cases aggregate <;> cases htarget
  | backoff untilMs nowMs elapsed => cases (advance_backoffElapsed_iff.mp hadvance).2
  | slot seeded => cases (advance_allocateBudget_iff.mp hadvance).2
  | retry outcome =>
    have htarget := (advance_retryDecide_iff.mp hadvance).2
    cases outcome <;> cases htarget

/-- A job comes to Succeeded, and leaves Running, by a result only. -/
theorem done_next (hs : v.Sound s) (hallows : v.Allows c) (hrestore : ∀ saved, c ≠ .restoreState saved)
    (hdispatch : ∀ result, c ≠ .dispatch id (ExecResult.signal result)) :
    (handle w c s).2.done id = s.done id := by
  unfold InProcessScheduler.done
  rcases phase_handle w c s id with hsame | ⟨signal, rfl, hadvance⟩ | hoverwrite | ⟨saved, rfl⟩
  · rw [hsame]
  · have hbefore : s.phase id ≠ .succeeded := by
      intro h
      have hterminal := Due.not_terminal hallows hadvance
      rw [h] at hterminal
      cases hterminal
    have hafter : (handle w (.dispatch id signal) s).2.phase id ≠ .succeeded := by
      intro h
      rw [h] at hadvance
      obtain rfl := Due.signal_of_succeeded hallows hadvance
      exact hdispatch (.ok ()) rfl
    rw [if_neg hbefore, if_neg hafter]
  · generalize (handle w c s).2.phase id = phase at hoverwrite ⊢
    subst hoverwrite
    obtain ⟨source, hfocus, hadvance⟩ := hallows
    have hagrees := hs.agrees
    rw [hfocus] at hagrees
    obtain rfl : s.phase id = source := hagrees (.inl True.intro)
    obtain ⟨-, ⟨hsource, rfl | ⟨reason, rfl⟩⟩ | ⟨hsource, rfl⟩⟩ := advance_operatorTransition hadvance <;>
      rw [hsource] <;> rfl
  · exact absurd rfl (hrestore saved)

/-- A signal moves a success from what is owed to what is done. -/
theorem known_dispatch (hs : v.Sound s) {signal : Signal} {id' : JobId}
    (hallows : v.Allows (.dispatch id' signal)) :
    successes id (v.next (.dispatch id' signal) (handle w (.dispatch id' signal) s).1).focus.known +
      (handle w (.dispatch id' signal) s).2.done id = successes id v.focus.known + s.done id := by
  obtain ⟨target, hadvance⟩ := hs.advance hallows
  rw [answer_dispatch_ok w hadvance,
    show (v.next (.dispatch id' signal) (.ok _)).focus = v.focus.dispatched from rfl]
  rcases Due.known hallows with ⟨result, rfl, hknown⟩ | ⟨hsignal, hknown, hdispatched⟩
  · unfold InProcessScheduler.done
    rw [hknown, phase_dispatch_ok w hadvance]
    by_cases hid : id = id'
    · subst hid
      -- the result of the job itself: its success is done now and owed no more
      cases result with
      | ok u =>
        obtain ⟨hrunning, rfl⟩ := advance_executionSucceeded_iff.mp hadvance
        simp [successes, hrunning, Except.isOk, Except.toBool]
      | error u =>
        obtain ⟨hrunning, rfl⟩ := advance_executionFailed_iff.mp hadvance
        simp [successes, hrunning, Except.isOk, Except.toBool]
    · simp [successes, hid, Ne.symm hid]
  · rw [hknown, hdispatched, done_next hs hallows (by simp) fun result h => ?_]
    obtain ⟨-, rfl⟩ := by simpa using h
    exact hsignal result rfl

/-- What a log has brought `id` is done, or still owed. -/
def Balanced (w : World) (s : InProcessScheduler) (id : JobId) (m : SchedMachine) : Prop :=
  successes id ((runs w m.log).filterMap Task.yield) + s.done id =
    successes id (viewOf w 0 m.log).focus.known + m.state.done id

theorem Balanced.step {s₀ : InProcessScheduler} (hs : Sequential w m) (h : Balanced w s₀ id m)
    (hallows : (viewOf w 0 m.log).Allows c) (hrestore : ∀ saved, c ≠ .restoreState saved) :
    Balanced w s₀ id (m.step (handle w) 0 c) := by
  unfold Balanced at h ⊢
  rw [viewOf_step_self]
  have hanswers := answers_handle w (fun _ => True) c m.state
  by_cases hspawn : ∃ id' job timeout, c = .spawn id' job timeout
  · obtain ⟨id', job, timeout, rfl⟩ := hspawn
    have hdone : (m.step (handle w) 0 (.spawn id' job timeout)).state.done id = m.state.done id :=
      done_next hs hallows hrestore (by simp)
    have hruns : runs w (m.step (handle w) 0 (.spawn id' job timeout)).log =
      runs w m.log ++ [(handle w (.spawn id' job timeout) m.state).1] := runs_spawn _ _ _ _ _ _
    rw [hdone, hruns, View.known_spawn hallows, List.filterMap_append]
    simp only [successes, List.countP_append] at h ⊢
    omega
  · have hquiet : ∀ id' job timeout, c ≠ .spawn id' job timeout := fun id' job timeout hc =>
      hspawn ⟨id', job, timeout, hc⟩
    have hruns : runs w (m.step (handle w) 0 c).log = runs w m.log := runs_cons_of_ne hquiet _ _ _
    rw [hruns, h]
    by_cases hdispatch : ∃ id' signal, c = .dispatch id' signal
    · obtain ⟨id', signal, rfl⟩ := hdispatch
      exact (known_dispatch hs hallows).symm
    · have hsilent : ∀ id' signal, c ≠ .dispatch id' signal := fun id' signal hc => hdispatch ⟨id', signal, hc⟩
      have hdone : (m.step (handle w) 0 c).state.done id = m.state.done id :=
        done_next hs hallows hrestore fun result => hsilent id _
      rw [hdone, successes, successes, (View.known_next hallows hanswers hquiet hsilent).countP_eq]

end

/-! ## What a call captures -/

section

variable {w : World} {v : View} {s : InProcessScheduler} {c : Cmd} {m : SchedMachine} {id : JobId}
  {recorders : Map JobId (RecordingJob O)} {storage : Nat} {storages : Storages O}

/-- Jobs change by registration only. -/
theorem jobs_handle (hc : ∀ job, c ≠ .registerJob job) (s : InProcessScheduler) :
    (handle w c s).2.state.jobs = s.state.jobs := by
  cases c with
  | registerJob job => exact absurd rfl (hc job)
  | dispatch id signal => rw [(dispatch_frame w id signal s).2]
  | spawn id job timeout => cases job <;> rfl
  | restoreState saved => exact (registries_restore saved.jobs s.state).1
  | _ => rfl

/-- The job that is about to be spawned is the registered one. -/
def Focus.Fetched (jobs : Map JobId ErasedJob) : Focus → Prop
  | .fetched id job _ _ _ => job = jobs.get? id
  | _ => True

theorem View.fetched_next (hallows : v.Allows c) :
    (v.next c (handle w c s).1).focus.Fetched s.state.jobs := by
  by_cases hlookup : ∃ id, c = .lookupJob id
  · obtain ⟨id, rfl⟩ := hlookup
    obtain ⟨pass, focus⟩ := v
    obtain ⟨ids, tasks, rfl⟩ : ∃ ids tasks, focus = .collecting (id :: ids) tasks := hallows
    rfl
  · generalize hfocus : (v.next c (handle w c s).1).focus = focus
    have hleads := View.leadsTo_next (r := (handle w c s).1) hallows
    rw [hfocus] at hleads
    cases focus with
    | fetched id job timeout ids tasks =>
      rcases hleads with hidle | hleads
      · cases hidle
      · cases c with
        | lookupJob id' => exact absurd ⟨id', rfl⟩ hlookup
        | _ => simp [Cmd.LeadsTo] at hleads
    | _ => exact True.intro

/-- The output of an execution of `id`, if it gets to record one. -/
def captureOf (recorders : Map JobId (RecordingJob O)) (id : JobId) (e : SchedEvent) : Option O :=
  match e.cmd with
  | .spawn id' (some _) timeout =>
    if id' = id then (recorders.get? id).bind fun job => job.output timeout e.pre.time else none
  | _ => none

/-- The outputs of `id` that are recorded in a log, newest first. -/
def captures (recorders : Map JobId (RecordingJob O)) (id : JobId) (log : List SchedEvent) : List O :=
  log.filterMap (captureOf recorders id)

/-- What is registered as a recording job is one, and `id` records to `storage`. -/
structure Wired (recorders : Map JobId (RecordingJob O)) (storage : Nat) (id : JobId) : Prop where
  keyed : ∀ id' job, recorders.get? id' = some job → job.id = id'
  sink : ∀ job, recorders.get? id = some job → job.outputSink = some (.inMemory storage)

/-- What an execution leaves in the storage. -/
theorem Wired.get?_recordRun (h : Wired recorders storage id) (e : SchedEvent) (storages : Storages O) :
    (recordRun recorders e storages storage).get? id =
      (captureOf recorders id e).or ((storages storage).get? id) := by
  obtain ⟨t, c, s⟩ := e
  unfold recordRun captureOf
  cases c with
  | spawn id' job timeout =>
    cases job with
    | none => rfl
    | some job =>
      by_cases hid : id' = id
      · subst hid
        cases hget : recorders.get? id' with
        | none => simp [hget]
        | some job' =>
          obtain rfl := h.keyed id' job' hget
          simp [hget, RecordingJob.get?_executeWithin (h.sink job' hget)]
      · cases hget : recorders.get? id' with
        | none => simp [hget, hid]
        | some job' =>
          have hne : id ≠ job'.id := by
            rw [h.keyed id' job' hget]
            exact Ne.symm hid
          simp [hget, hid, RecordingJob.get?_executeWithin_ne hne]
  | _ => rfl

/-- The storage holds the newest output. -/
theorem Wired.get?_foldr (h : Wired recorders storage id) (log : List SchedEvent) (storages : Storages O) :
    (log.foldr (recordRun recorders) storages storage).get? id =
      (captures recorders id log).head?.or ((storages storage).get? id) := by
  induction log with
  | nil => rfl
  | cons e log ih =>
    rw [List.foldr_cons, h.get?_recordRun, ih]
    unfold captures
    rw [List.filterMap_cons]
    cases captureOf recorders id e <;> rfl

/-- The recording jobs are the registered ones. -/
def Mirrors (recorders : Map JobId (RecordingJob O)) (id : JobId) (jobs : Map JobId ErasedJob) : Prop :=
  jobs.get? id = (recorders.get? id).map RecordingJob.erased

/-- Every success of a call is captured. -/
structure Capturing (recorders : Map JobId (RecordingJob O)) (w : World) (jobs : Map JobId ErasedJob)
    (id : JobId) (m : SchedMachine) : Prop where
  jobs : m.state.state.jobs = jobs
  fetched : (viewOf w 0 m.log).focus.Fetched m.state.state.jobs
  count : (captures recorders id m.log).length = successes id ((runs w m.log).filterMap Task.yield)

/-- A spawn of a registered job captures its output if it succeeds. -/
theorem Mirrors.count_spawn {jobs : Map JobId ErasedJob} (h : Mirrors recorders id jobs) (t : Nat)
    (id' : JobId) (timeout : Option Duration) (s : InProcessScheduler) :
    (captureOf recorders id ⟨t, .spawn id' (jobs.get? id') timeout, s⟩).toList.length =
      successes id ([(handle w (.spawn id' (jobs.get? id') timeout) s).1].filterMap Task.yield) := by
  rw [successes_yield]
  by_cases hid : id' = id
  · subst hid
    rw [h]
    cases hget : recorders.get? id' with
    | none => simp [captureOf, handle, effect]
    | some job =>
      have hoks := job.isSome_output timeout s.time
      have hcapture : captureOf recorders id' ⟨t, .spawn id' (some job.erased) timeout, s⟩ =
          job.output timeout s.time := by
        simp only [captureOf, if_pos, hget, Option.bind_some]
      show (captureOf recorders id' ⟨t, .spawn id' (some job.erased) timeout, s⟩).toList.length =
        if id' = id' ∧ (job.erased.execute s.time).within timeout = some (.ok ()) then 1 else 0
      rw [hcapture]
      cases hout : job.output timeout s.time with
      | some output => rw [if_pos ⟨rfl, hoks.mp (by rw [hout]; rfl)⟩]; rfl
      | none =>
        rw [if_neg fun hok => ?_]
        · rfl
        · rw [← hoks, hout] at hok
          exact Bool.noConfusion hok.2
  · cases hget : jobs.get? id' <;> simp [captureOf, hid, handle, effect]

theorem Capturing.step {jobs : Map JobId ErasedJob} (hmirrors : Mirrors recorders id jobs)
    (h : Capturing recorders w jobs id m) (hallows : (viewOf w 0 m.log).Allows c)
    (hregister : ∀ job, c ≠ .registerJob job) : Capturing recorders w jobs id (m.step (handle w) 0 c) := by
  have hjobs : (m.step (handle w) 0 c).state.state.jobs = m.state.state.jobs := jobs_handle hregister m.state
  refine ⟨hjobs.trans h.jobs, ?_, ?_⟩
  · rw [viewOf_step_self, hjobs]
    exact View.fetched_next hallows
  · have hcount := h.count
    have hcaptures : (captures recorders id (m.step (handle w) 0 c).log).length =
        (captureOf recorders id ⟨0, c, m.state⟩).toList.length + (captures recorders id m.log).length := by
      rw [← List.length_append]
      refine congrArg List.length ?_
      unfold captures
      rw [Machine.step, List.filterMap_cons]
      cases captureOf recorders id ⟨0, c, m.state⟩ <;> rfl
    rw [hcaptures, hcount]
    by_cases hspawn : ∃ id' job timeout, c = .spawn id' job timeout
    · obtain ⟨id', job, timeout, rfl⟩ := hspawn
      obtain ⟨ids, tasks, hfocus⟩ := hallows
      have hjob := h.fetched
      rw [hfocus, h.jobs] at hjob
      obtain rfl : job = jobs.get? id' := hjob
      rw [hmirrors.count_spawn (w := w), Machine.step, runs_spawn, List.filterMap_append]
      simp only [successes, List.countP_append]
      omega
    · have hquiet : ∀ id' job timeout, c ≠ .spawn id' job timeout := fun id' job timeout hc =>
        hspawn ⟨id', job, timeout, hc⟩
      have hnone : captureOf recorders id ⟨0, c, m.state⟩ = none := by
        unfold captureOf
        cases c with
        | spawn id' job timeout => exact absurd rfl (hquiet id' job timeout)
        | _ => rfl
      rw [hnone, Machine.step, runs_cons_of_ne hquiet]
      exact Nat.zero_add _

/-- **A call captures what it brings to Succeeded.** -/
theorem length_captures {jobs : Map JobId ErasedJob} (hmirrors : Mirrors recorders id jobs) {call : Call}
    (hregister : ∀ job, call ≠ .registerJob job) (hrestore : ∀ saved, call ≠ .restoreState saved)
    {s : InProcessScheduler} (hjobs : s.state.jobs = jobs) :
    let m := runCalls w [call] s.start
    m.state.state.jobs = jobs ∧ (captures recorders id m.log).length + s.done id = m.state.done id := by
  intro m
  have honly : ∀ call' ∈ [call], call' = call := by simp
  have hrun := runCalls_induct (w := w) (P := (· = call))
    (J := fun m => Capturing recorders w jobs id m ∧ Balanced w s id m)
    (fun m c hs hJ hallows hc => ?_) honly (Sequential.start w s) (Resting.start w s)
    ⟨⟨hjobs, True.intro, rfl⟩, rfl⟩
  · obtain ⟨⟨hcapturing, hbalanced⟩, -, hresting⟩ := hrun
    have hknown := Focus.known_of_idle hresting.1
    have hcount := hcapturing.count
    unfold Balanced at hbalanced
    rw [hknown, ← hcount, show successes id [] = 0 from rfl] at hbalanced
    exact ⟨hcapturing.jobs, hbalanced.trans (Nat.zero_add _)⟩
  · have hno : (∀ job, c ≠ .registerJob job) ∧ ∀ saved, c ≠ .restoreState saved := by
      constructor
      · rintro job rfl
        exact hregister job (Eq.symm hc)
      · rintro saved rfl
        exact hrestore saved (Eq.symm hc)
    exact ⟨hJ.1.step hmirrors hallows hno.1, hJ.2.step hs hallows hno.2⟩

end

/-! ## Runs with a consumer -/

section

variable {w : World} {storage : Nat} {id : JobId} {c : Capture O} {acts : List (Act O)}

/-- The output of `id` is in one of the maps exactly if the job is Succeeded, and a registered job returned
it. -/
structure Capture.Once (storage : Nat) (id : JobId) (acts : List (Act O)) (c : Capture O) : Prop where
  wired : Wired c.recorders storage id
  mirrors : Mirrors c.recorders id c.scheduler.state.jobs
  registered : ∀ job, c.recorders.get? id = some job → .register job ∈ acts
  count : (c.delivered storage id).length = c.scheduler.done id
  returned : ∀ output ∈ c.delivered storage id, ∃ job, .register job ∈ acts ∧ job.id = id ∧
    ∃ moment, (job.executeBody moment).outcome = .ok output

theorem Capture.delivered_eq (storage : Nat) (id : JobId) (c : Capture O) :
    c.delivered storage id = ((c.storages storage).get? id).toList ++
      ((c.drained.filter fun x => x.1 = storage).map (·.2)).filterMap (·.get? id) := by
  unfold delivered
  rw [List.filterMap_cons]
  cases (c.storages storage).get? id <;> rfl

theorem mem_captures {recorders : Map JobId (RecordingJob O)} {log : List SchedEvent} {output : O}
    (h : output ∈ captures recorders id log) :
    ∃ job, recorders.get? id = some job ∧ ∃ moment, (job.executeBody moment).outcome = .ok output := by
  obtain ⟨⟨t, c, s⟩, -, he⟩ := List.mem_filterMap.mp h
  unfold captureOf at he
  cases c with
  | spawn id' job timeout =>
    cases job with
    | none => cases he
    | some job =>
      obtain ⟨-, hbind⟩ := Option.ite_none_right_eq_some.mp he
      obtain ⟨job', hget, houtput⟩ := Option.bind_eq_some_iff.mp hbind
      exact ⟨job', hget, s.time, RecordingJob.ok_of_output houtput⟩
  | _ => cases he

namespace Capture.Once

theorem mono (h : c.Once storage id acts) {acts' : List (Act O)} (hsub : ∀ act ∈ acts, act ∈ acts') :
    c.Once storage id acts' where
  wired := h.wired
  mirrors := h.mirrors
  registered job hget := hsub _ (h.registered job hget)
  count := h.count
  returned output houtput :=
    have ⟨job, hjob, hid, hmoment⟩ := h.returned output houtput
    ⟨job, hsub _ hjob, hid, hmoment⟩

/-- A call that registers nothing adds what it captures. -/
theorem issue (h : c.Once storage id acts) {call : Call} (hregister : ∀ job, call ≠ .registerJob job)
    (hrestore : ∀ saved, call ≠ .restoreState saved) : (c.issue w call).Once storage id acts := by
  obtain ⟨hjobs, hcount⟩ := length_captures (w := w) h.mirrors hregister hrestore rfl
  set m := runCalls w [call] c.scheduler.start with hm
  have hone : m.state.done id ≤ 1 := by
    unfold InProcessScheduler.done
    split <;> omega
  -- a second output would be one too many, so nothing is overwritten
  have hdelivered : (c.issue w call).delivered storage id =
      captures c.recorders id m.log ++ c.delivered storage id := by
    have hget : ((c.issue w call).storages storage).get? id =
        (captures c.recorders id m.log).head?.or ((c.storages storage).get? id) :=
      h.wired.get?_foldr m.log c.storages
    have hbefore := h.count
    rw [delivered_eq, hget]
    rw [delivered_eq] at hbefore ⊢
    generalize captures c.recorders id m.log = outputs at hcount ⊢
    rcases outputs with - | ⟨output, - | ⟨output', outputs⟩⟩
    · rfl
    · have hnone : (c.storages storage).get? id = none ∧
          ((c.drained.filter fun x => x.1 = storage).map (·.2)).filterMap (·.get? id) = [] := by
        rw [← Option.toList_eq_nil_iff, ← List.append_eq_nil_iff, ← List.length_eq_zero_iff]
        simp only [List.length_singleton] at hcount
        omega
      simp only [hnone.1, show (c.issue w call).drained = c.drained from rfl, hnone.2]
      rfl
    · simp only [List.length_cons] at hcount
      omega
  refine ⟨h.wired, ?_, h.registered, ?_, ?_⟩
  · show Mirrors c.recorders id m.state.state.jobs
    rw [hjobs]
    exact h.mirrors
  · rw [hdelivered, List.length_append, h.count]
    exact hcount
  · intro output houtput
    rw [hdelivered, List.mem_append] at houtput
    rcases houtput with hnew | hold
    · obtain ⟨job, hget, hmoment⟩ := mem_captures hnew
      exact ⟨job, h.registered job hget, h.wired.keyed id job hget, hmoment⟩
    · exact h.returned output hold

theorem drain (h : c.Once storage id acts) (storage' : Nat) :
    (c.step w (.drain storage')).Once storage id acts := by
  have hdelivered : (c.step w (.drain storage')).delivered storage id = c.delivered storage id := by
    rw [delivered_eq, delivered_eq]
    by_cases hstorage : storage' = storage
    · subst hstorage
      simp only [Capture.step, Storages.drain, if_pos, List.filter_cons_of_pos, List.map_cons,
        decide_true, Map.get?_empty, Option.toList_none, List.nil_append, List.filterMap_cons]
      cases (c.storages storage').get? id <;> rfl
    · simp [Capture.step, Storages.drain, hstorage, Ne.symm hstorage]
  exact ⟨h.wired, h.mirrors, h.registered, hdelivered ▸ h.count, hdelivered ▸ h.returned⟩

/-- A registration changes no phase, and neither the sinks. -/
theorem register (h : c.Once storage id acts) {job : ErasedJob}
    {recorders : Map JobId (RecordingJob O)} (hwired : Wired recorders storage id)
    (hmirrors : Mirrors recorders id (c.scheduler.state.jobs.insert job.id job))
    (hregistered : ∀ job, recorders.get? id = some job → .register job ∈ acts) :
    Capture.Once storage id acts { c.issue w (.registerJob job) with recorders } := by
  have hdone : (handle w (.registerJob job) c.scheduler).2.done id = c.scheduler.done id := by
    unfold InProcessScheduler.done
    rw [phase_of_not_moves w rfl]
  exact ⟨hwired, hmirrors, hregistered, h.count.trans hdone.symm, h.returned⟩

theorem step (h : c.Once storage id acts) {act : Act O} (hact : act ∈ acts) (hrecords : act.records storage id) :
    (c.step w act).Once storage id acts := by
  cases act with
  | drain storage' => exact h.drain storage'
  | register job =>
    refine h.register ⟨fun id' job' hget => ?_, fun job' hget => ?_⟩ ?_ fun job' hget => ?_
    · rw [Map.get?_insert] at hget
      split at hget
      · next hid =>
        obtain rfl := Option.some.inj hget
        exact hid.symm
      · exact h.wired.keyed id' job' hget
    · rw [Map.get?_insert] at hget
      split at hget
      · next hid =>
        obtain rfl := Option.some.inj hget
        exact hrecords hid.symm
      · exact h.wired.sink job' hget
    · show Map.get? (c.scheduler.state.jobs.insert job.id job.erased) id = _
      rw [Map.get?_insert, Map.get?_insert]
      by_cases hid : id = job.id
      · rw [if_pos hid, if_pos hid]
        rfl
      · rw [if_neg hid, if_neg hid]
        exact h.mirrors
    · rw [Map.get?_insert] at hget
      split at hget
      · obtain rfl := Option.some.inj hget
        exact hact
      · exact h.registered job' hget
  | call call =>
    cases call with
    | registerJob job =>
      have hne : id ≠ job.id := Ne.symm hrecords
      have hget : Map.get? (c.recorders.erase job.id) id = c.recorders.get? id := Map.get?_erase_ne _ hne
      refine h.register ⟨fun id' job' hget' => ?_, hget ▸ h.wired.sink⟩ ?_ (hget ▸ h.registered)
      · rw [Map.get?_erase] at hget'
        split at hget'
        · cases hget'
        · exact h.wired.keyed id' job' hget'
      · unfold Mirrors
        rw [Map.get?_insert_ne _ _ hne, hget]
        exact h.mirrors
    | restoreState saved => exact hrecords.elim
    | _ => exact h.issue (by simp) (by simp)

end Capture.Once

theorem once_capture (w : World) (tool : String) (hrecords : ∀ act ∈ acts, act.records storage id) :
    (capture w tool acts).Once storage id acts := by
  induction acts using List.reverseRecOn with
  | nil =>
    refine ⟨⟨fun id' job h => ?_, fun job h => ?_⟩, rfl, fun job h => ?_, rfl, fun output h => ?_⟩ <;> cases h
  | append_singleton acts act ih =>
    have hbefore := ih fun act' hmem => hrecords act' (List.mem_append_left _ hmem)
    unfold capture
    rw [List.foldl_append]
    exact (hbefore.mono fun act' hmem => List.mem_append_left _ hmem).step
      (List.mem_append_right _ List.mem_cons_self) (hrecords act (List.mem_append_right _ List.mem_cons_self))

end

/-! ## The result -/

/-- **Every output is delivered once.** On a run without restores on which every job of this id records to
this storage, a Succeeded job has one output in the maps that were drained from the storage and in what the
storage holds, taken together, and an execution of a registered job has returned it. Any other job has
none. -/
theorem outputs_delivered_once (w : World) (tool : String) {acts : List (Act O)} {storage : Nat}
    {id : JobId} (hrecords : ∀ act ∈ acts, act.records storage id) :
    let c := capture w tool acts
    (c.scheduler.phase id = .succeeded → ∃ output, c.delivered storage id = [output] ∧
      ∃ job, .register job ∈ acts ∧ job.id = id ∧ ∃ moment, (job.executeBody moment).outcome = .ok output) ∧
    (c.scheduler.phase id ≠ .succeeded → c.delivered storage id = []) := by
  intro c
  have honce : c.Once storage id acts := once_capture w tool hrecords
  have hcount := honce.count
  constructor
  · intro hsucceeded
    rw [InProcessScheduler.done, if_pos hsucceeded] at hcount
    obtain ⟨output, houtput⟩ := List.length_eq_one_iff.mp hcount
    exact ⟨output, houtput, honce.returned output (houtput ▸ List.mem_cons_self)⟩
  · intro hnot
    rw [InProcessScheduler.done, if_neg hnot] at hcount
    exact List.length_eq_zero_iff.mp hcount

/-- A job that records to the first storage. -/
def Sample.recording (name : String) (outcome : Outcome Nat) : RecordingJob Nat where
  kind := ⟨"build"⟩
  scope := .global
  subject := .pinned name
  outputSink := some (.inMemory 0)
  executeBody _ := ⟨⟨0⟩, outcome⟩

/-- One job succeeds and one fails; the consumer drains between two ticks. -/
def Sample.drained : List (Act Nat) :=
  [.register (recording "a" (.ok 7)), .register (recording "b" .err), .call (.tick pair), .drain 0,
    .call (.tick pair), .drain 0]

theorem outputs_delivered_once_drained :
    let c := capture Sample.world "t" Sample.drained
    (∃ output, c.delivered 0 (Sample.jobId "a") = [output]) ∧ c.delivered 0 (Sample.jobId "b") = [] := by
  intro c
  have hrecords : ∀ id, ∀ act ∈ Sample.drained, act.records 0 id := by
    simp [Sample.drained, Act.records, Sample.recording]
  have hphases : c.scheduler.phase (Sample.jobId "a") = .succeeded ∧
      c.scheduler.phase (Sample.jobId "b") ≠ .succeeded := by decide +kernel
  obtain ⟨output, hdelivered, -⟩ :=
    (outputs_delivered_once Sample.world "t" (hrecords (Sample.jobId "a"))).1 hphases.1
  exact ⟨⟨output, hdelivered⟩, (outputs_delivered_once Sample.world "t" (hrecords _)).2 hphases.2⟩

end Shigoto
