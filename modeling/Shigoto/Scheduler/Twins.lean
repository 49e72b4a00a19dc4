import Shigoto.Scheduler.Alike
import Shigoto.Scheduler.Linked
import Shigoto.Scheduler.RestartCaps
import Shigoto.Scheduler.Unhealed
import Shigoto.Summary

/-!
# Schedulers of two processes

A scheduler of an old process and one of a new process that hold the same: the same phases and counts, in
whatever order their maps list them, the same free slots, and registered gates, policies and jobs that do
the same although they are other objects (`Handover.Twins`). Their programs issue other commands, as they
pass on what they were handed, but they are linked (`Handover.connects`); and twins answer in corresponding
ways and stay twins (`Twins.handle`). So corresponding calls keep twins.
-/

namespace Shigoto

open Atomic

/-! ## What the two processes have in common -/

/-- The phases of both are the same, in whatever order their maps list them. -/
def Snapshot.Twin (snapshot snapshot' : Snapshot) : Prop :=
  Map.get? snapshot'.phases = Map.get? snapshot.phases

structure GateContext.Twin (ctx ctx' : GateContext) : Prop where
  jobId : ctx'.jobId = ctx.jobId
  dag : ctx'.dag = ctx.dag
  snapshot : ctx.snapshot.Twin ctx'.snapshot

/-- Commands that mention nothing that a process has of its own. -/
def Cmd.shared : Cmd → Bool
  | .now | .waves _ | .seed _ | .phaseOf _ | .dispatch _ _ | .runningOf _ | .join _ | .clearFailures _
  | .recordFailure _ | .release _ | .overwrite _ _ | .emit _ _ _ _ _ | .restoreState _
  | .setTimeout _ _ | .installBudget _ => true
  | _ => false

/-- Calls that bring nothing that a process has of its own. -/
def Call.shared : Call → Bool
  | .registerGate _ _ | .registerRetryPolicy _ _ | .registerJob _ => false
  | _ => true

/-- The outside of an old process from the moment `left` on, and that of a new process, in which things go
on in the same way from the moment `entered` on. -/
structure Handover where
  old : World
  new : World
  left : Nat
  entered : Nat
  clock : ∀ n, new.clock (entered + n) = old.clock (left + n)
  order : ∀ n, new.order (entered + n) = old.order (left + n)
  toposort : new.toposort = old.toposort

/-- The receipts say the same, and list the jobs that need attention in some order. -/
structure TickReceipt.Twin (receipt receipt' : TickReceipt) : Prop where
  tickAt : receipt'.tickAt = receipt.tickAt
  transitionsThisTick : receipt'.transitionsThisTick = receipt.transitionsThisTick
  phaseCounts : ∀ name, Tally.counted receipt'.phaseCounts name = Tally.counted receipt.phaseCounts name
  unhealed : receipt'.unhealed.Perm receipt.unhealed

theorem Snapshot.Twin.phaseCounts {snapshot snapshot' : Snapshot} (h : snapshot.Twin snapshot')
    (name : String) :
    Tally.counted snapshot'.phaseCounts name = Tally.counted snapshot.phaseCounts name := by
  have hperm : snapshot'.phases.entries.Perm snapshot.phases.entries := by
    refine List.lookup_ext snapshot'.phases.nodupKeys snapshot.phases.nodupKeys fun id phase => ?_
    exact iff_of_eq (congrArg (phase ∈ ·) (congrFun h id))
  rw [phaseCounts_eq, phaseCounts_eq, Tally.counted_tally, Tally.counted_tally, (hperm.map _).count_eq]

namespace Handover

variable (H : Handover)

/-- The gates say the same about the same phases. -/
def Gates (gate gate' : Gate) : Prop :=
  ∀ n ctx ctx', ctx.Twin ctx' → gate'.evaluate (H.entered + n) ctx' = gate.evaluate (H.left + n) ctx

def Policies (policy policy' : RetryPolicy) : Prop :=
  ∀ n attempt history, policy'.decide H.new.floatJitter (H.entered + n) attempt history =
    policy.decide H.old.floatJitter (H.left + n) attempt history

structure Jobs (job job' : ErasedJob) : Prop where
  id : job'.id = job.id
  execute : ∀ n, job'.execute (H.entered + n) = job.execute (H.left + n)

/-- The commands that correspond, and their answers. -/
inductive Link : (c c' : Cmd) → (c.Resp → c'.Resp → Prop) → Prop
  | shared (c : Cmd) (h : c.shared = true) : Link c c fun r r' => r' = r
  | readGates (id : JobId) : Link (.readGates id) (.readGates id) fun r r' =>
    List.Forall₂ H.Gates r.1 r'.1 ∧ r.2.Twin r'.2
  | consult {gate gate' : Gate} {ctx ctx' : GateContext} (hgate : H.Gates gate gate')
    (hctx : ctx.Twin ctx') : Link (.consult gate ctx) (.consult gate' ctx') fun r r' => r' = r
  | tryAllocate (id : JobId) : Link (.tryAllocate id) (.tryAllocate id) fun r r' =>
    r' = .ok () ↔ r = .ok ()
  | readRetry (id : JobId) : Link (.readRetry id) (.readRetry id) fun r r' =>
    H.Policies r.1 r'.1 ∧ r'.2 = r.2
  | decide {policy policy' : RetryPolicy} (h : H.Policies policy policy') (attempt : UInt32)
    (history : List FailureRecord) :
    Link (.decide policy attempt history) (.decide policy' attempt history) fun r r' => r' = r
  | lookupJob (id : JobId) : Link (.lookupJob id) (.lookupJob id) fun r r' =>
    Option.Rel H.Jobs r.1 r'.1 ∧ r'.2 = r.2
  | spawn (id : JobId) {job job' : Option ErasedJob} (h : Option.Rel H.Jobs job job')
    (timeout : Option Duration) : Link (.spawn id job timeout) (.spawn id job' timeout) fun r r' => r' = r
  | snapshotInner : Link .snapshotInner .snapshotInner fun r r' => r.Twin r'
  | hashOrder : Link .hashOrder .hashOrder fun _ _ => True
  | snapshotState : Link .snapshotState .snapshotState fun _ _ => True
  | registerJob {job job' : ErasedJob} (h : H.Jobs job job') :
    Link (.registerJob job) (.registerJob job') fun _ _ => True
  | registerGate (kind : JobKindId) {gate gate' : Gate} (h : H.Gates gate gate') :
    Link (.registerGate kind gate) (.registerGate kind gate') fun _ _ => True
  | registerRetryPolicy (kind : JobKindId) {policy policy' : RetryPolicy} (h : H.Policies policy policy') :
    Link (.registerRetryPolicy kind policy) (.registerRetryPolicy kind policy') fun _ _ => True

/-- What is registered with the two. -/
structure Registries (state state' : SchedulerState) : Prop where
  jobs : ∀ id, Option.Rel H.Jobs (state.jobs.get? id) (state'.jobs.get? id)
  timeouts : Map.get? state'.timeouts = Map.get? state.timeouts
  gates : ∀ kind, List.Forall₂ H.Gates ((state.gates.get? kind).getD []) ((state'.gates.get? kind).getD [])
  retryPolicies : ∀ kind, H.Policies ((state.retryPolicies.get? kind).getD .noRetry)
    ((state'.retryPolicies.get? kind).getD .noRetry)

/-- The old scheduler, had it gone on, and the new one. Both have emitted the same since the restart. -/
structure Twins (past past' : List TransitionEvent) (s s' : InProcessScheduler) : Prop where
  phases : Map.get? s'.state.phases = Map.get? s.state.phases
  tally : s'.state.tally = s.state.tally
  registries : H.Registries s.state s'.state
  budget : s.budget.Level (fun _ => True) s'.budget
  tool : s'.tool = s.tool
  emitted : ∃ events, s.emitted = past ++ events ∧ s'.emitted = past' ++ events
  time : ∃ n, s.time = H.left + n ∧ s'.time = H.entered + n

variable {H} {past past' : List TransitionEvent} {s s' : InProcessScheduler}

namespace Registries

variable {state state' : SchedulerState}

theorem registerJob (h : H.Registries state state') {job job' : ErasedJob} (hjob : H.Jobs job job')
    {phases phases' : Map JobId JobPhase} :
    H.Registries { state with phases := phases, jobs := state.jobs.insert job.id job }
      { state' with phases := phases', jobs := state'.jobs.insert job'.id job' } := by
  refine ⟨fun id => ?_, h.timeouts, h.gates, h.retryPolicies⟩
  show Option.Rel H.Jobs ((state.jobs.insert job.id job).get? id) ((state'.jobs.insert job'.id job').get? id)
  rw [Map.get?_insert, Map.get?_insert, hjob.id]
  split
  · exact .some hjob
  · exact h.jobs id

theorem registerGate (h : H.Registries state state') (kind : JobKindId) {gate gate' : Gate}
    (hgate : H.Gates gate gate') :
    H.Registries { state with gates := state.gates.insert kind ((state.gates.get? kind).getD [] ++ [gate]) }
      { state' with gates := state'.gates.insert kind ((state'.gates.get? kind).getD [] ++ [gate']) } := by
  refine ⟨h.jobs, h.timeouts, fun kind' => ?_, h.retryPolicies⟩
  show List.Forall₂ H.Gates ((Map.get? (state.gates.insert kind _) kind').getD [])
    ((Map.get? (state'.gates.insert kind _) kind').getD [])
  rw [Map.get?_insert, Map.get?_insert]
  split
  · exact List.rel_append (h.gates kind) (.cons hgate .nil)
  · exact h.gates kind'

theorem registerRetryPolicy (h : H.Registries state state') (kind : JobKindId) {policy policy' : RetryPolicy}
    (hpolicy : H.Policies policy policy') :
    H.Registries { state with retryPolicies := state.retryPolicies.insert kind policy }
      { state' with retryPolicies := state'.retryPolicies.insert kind policy' } := by
  refine ⟨h.jobs, h.timeouts, h.gates, fun kind' => ?_⟩
  show H.Policies ((Map.get? (state.retryPolicies.insert kind policy) kind').getD .noRetry)
    ((Map.get? (state'.retryPolicies.insert kind policy') kind').getD .noRetry)
  rw [Map.get?_insert, Map.get?_insert]
  split
  · exact hpolicy
  · exact h.retryPolicies kind'

end Registries

/-! ## Commands -/

namespace Twins

theorem phase (h : H.Twins past past' s s') : s'.phase = s.phase :=
  funext fun id => congrArg (fun get => (get id).getD JobPhase.pending) h.phases

/-- The time of both goes on by one. -/
theorem later (h : H.Twins past past' s s') : ∃ n, s.time + 1 = H.left + n ∧ s'.time + 1 = H.entered + n := by
  obtain ⟨n, htime, htime'⟩ := h.time
  exact ⟨n + 1, congrArg (· + 1) htime, congrArg (· + 1) htime'⟩

/-- A command that only asks leaves both as they are. -/
theorem asked (h : H.Twins past past' s s') {c c' : Cmd} (hasks : (effect H.old c s).2 = s)
    (hasks' : (effect H.new c' s').2 = s') :
    H.Twins past past' (Shigoto.handle H.old c s).2 (Shigoto.handle H.new c' s').2 := by
  unfold Shigoto.handle
  rw [hasks, hasks']
  exact ⟨h.phases, h.tally, h.registries, h.budget, h.tool, h.emitted, h.later⟩

theorem attempts (h : H.Twins past past' s s') : Map.get? s'.state.attempts = Map.get? s.state.attempts :=
  funext fun id => congrArg Prod.fst (congrFun h.tally id)

theorem failureHistory (h : H.Twins past past' s s') :
    Map.get? s'.state.failureHistory = Map.get? s.state.failureHistory :=
  funext fun id => congrArg Prod.snd (congrFun h.tally id)

theorem clock (h : H.Twins past past' s s') : H.new.clock s'.time = H.old.clock s.time := by
  obtain ⟨n, htime, htime'⟩ := h.time
  rw [htime, htime', H.clock]

theorem order (h : H.Twins past past' s s') : H.new.order s'.time = H.old.order s.time := by
  obtain ⟨n, htime, htime'⟩ := h.time
  rw [htime, htime', H.order]

/-- A new phase of one job, and the same event or none on both sides. -/
theorem move (h : H.Twins past past' s s') (id : JobId) (phase : JobPhase) (news : List TransitionEvent) :
    H.Twins past past'
      { s with
        state.phases := s.state.phases.insert id phase
        emitted := s.emitted ++ news
        time := s.time + 1 }
      { s' with
        state.phases := s'.state.phases.insert id phase
        emitted := s'.emitted ++ news
        time := s'.time + 1 } := by
  obtain ⟨events, hold, hnew⟩ := h.emitted
  refine ⟨?_, h.tally, ⟨h.registries.jobs, h.registries.timeouts, h.registries.gates,
    h.registries.retryPolicies⟩, h.budget, h.tool, ⟨events ++ news, ?_, ?_⟩, h.later⟩
  · rw [Map.get?_insert_eq, Map.get?_insert_eq, h.phases]
  · rw [hold, List.append_assoc]
  · rw [hnew, List.append_assoc]

/-- The counts of failures change on both sides, and nothing else does. -/
theorem count (h : H.Twins past past' s s') {attempts attempts' : Map JobId UInt32}
    {history history' : Map JobId (List FailureRecord)} (hattempts : Map.get? attempts' = Map.get? attempts)
    (hhistory : Map.get? history' = Map.get? history) :
    H.Twins past past'
      { s with
        state.attempts := attempts
        state.failureHistory := history
        time := s.time + 1 }
      { s' with
        state.attempts := attempts'
        state.failureHistory := history'
        time := s'.time + 1 } :=
  ⟨h.phases, funext fun id => Prod.ext (congrFun hattempts id) (congrFun hhistory id),
    ⟨h.registries.jobs, h.registries.timeouts, h.registries.gates, h.registries.retryPolicies⟩, h.budget,
    h.tool, h.emitted, h.later⟩

/-- What two states hold of a job determines what they hold of it after a restore. -/
theorem restoreAll_congr {state state' : SchedulerState}
    (hphases : Map.get? state'.phases = Map.get? state.phases)
    (htally : state'.tally = state.tally) (jobs : List StoredJobState) :
    Map.get? (state'.restoreAll jobs).phases = Map.get? (state.restoreAll jobs).phases ∧
      (state'.restoreAll jobs).tally = (state.restoreAll jobs).tally := by
  induction jobs generalizing state state' with
  | nil => exact ⟨hphases, htally⟩
  | cons job jobs ih =>
    refine ih (funext fun id => ?_) (funext fun id => Prod.ext ?_ ?_)
    · rw [phases_restore, phases_restore, hphases]
    · have hattempts := congrArg Prod.fst (congrFun htally id)
      exact (attempts_restore state' job id).trans
        ((congrArg _ hattempts).trans (attempts_restore state job id).symm)
    · have hhistory := congrArg Prod.snd (congrFun htally id)
      exact (failureHistory_restore state' job id).trans
        ((congrArg _ hhistory).trans (failureHistory_restore state job id).symm)

theorem handle_dispatch (h : H.Twins past past' s s') (id : JobId) (signal : Signal) :
    (Shigoto.handle H.new (.dispatch id signal) s').1 = (Shigoto.handle H.old (.dispatch id signal) s).1 ∧
      H.Twins past past' (Shigoto.handle H.old (.dispatch id signal) s).2
        (Shigoto.handle H.new (.dispatch id signal) s').2 := by
  cases hadvance : advance (s.phase id) signal with
  | error e =>
    have hadvance' : advance (s'.phase id) signal = .error e := h.phase ▸ hadvance
    refine ⟨?_, h.asked (by rw [effect_dispatch_error _ hadvance])
      (by rw [effect_dispatch_error _ hadvance'])⟩
    simp only [Shigoto.handle, effect_dispatch_error _ hadvance, effect_dispatch_error _ hadvance']
  | ok target =>
    have hadvance' : advance (s'.phase id) signal = .ok target := h.phase ▸ hadvance
    have hevent : dispatchEvent H.new s' id signal target = dispatchEvent H.old s id signal target := by
      unfold dispatchEvent
      rw [h.clock, h.phase, h.tool]
    rw [answer_dispatch_ok _ hadvance, answer_dispatch_ok _ hadvance', hevent]
    refine ⟨rfl, ?_⟩
    simp only [Shigoto.handle, effect_dispatch_ok _ hadvance, effect_dispatch_ok _ hadvance', hevent]
    exact h.move id target [_]

/-- A command that both issue is answered in the same way. -/
theorem handle_shared (h : H.Twins past past' s s') {c : Cmd} (hc : c.shared = true) :
    (Shigoto.handle H.new c s').1 = (Shigoto.handle H.old c s).1 ∧
      H.Twins past past' (Shigoto.handle H.old c s).2 (Shigoto.handle H.new c s').2 := by
  cases c with
  | now => exact ⟨h.clock, h.asked rfl rfl⟩
  | waves dag =>
    refine ⟨?_, h.asked rfl rfl⟩
    show dag.waves H.new.toposort (H.new.order s'.time) none =
      dag.waves H.old.toposort (H.old.order s.time) none
    rw [H.toposort, h.order]
  | seed id =>
    refine ⟨rfl, ?_, h.tally, ⟨h.registries.jobs, h.registries.timeouts, h.registries.gates,
      h.registries.retryPolicies⟩, h.budget, h.tool, h.emitted, h.later⟩
    show Map.get? (seedPhase s'.state.phases id) = Map.get? (seedPhase s.state.phases id)
    rw [get?_seedPhase, get?_seedPhase, h.phases]
  | phaseOf id => exact ⟨congrFun h.phase id, h.asked rfl rfl⟩
  | dispatch id signal => exact h.handle_dispatch id signal
  | runningOf wave =>
    refine ⟨?_, h.asked rfl rfl⟩
    show wave.filter _ = wave.filter _
    rw [h.phases]
  | join tasks =>
    refine ⟨?_, h.asked rfl rfl⟩
    show (tasks.insertionSort _).filterMap _ = (tasks.insertionSort _).filterMap _
    rw [h.order]
  | clearFailures id =>
    refine ⟨rfl, h.count (funext fun id' => ?_) (funext fun id' => ?_)⟩
    · rw [Map.get?_erase, Map.get?_erase, h.attempts]
    · rw [Map.get?_erase, Map.get?_erase, h.failureHistory]
  | recordFailure id =>
    refine ⟨rfl, h.count ?_ ?_⟩
    · rw [Map.get?_insert_eq, Map.get?_insert_eq, h.attempts]
    · rw [Map.get?_insert_eq, Map.get?_insert_eq, h.attempts, h.failureHistory, h.clock]
  | release id =>
    exact ⟨rfl, h.phases, h.tally, h.registries, h.budget.release id, h.tool, h.emitted, h.later⟩
  | overwrite id phase =>
    have hmoved := h.move id phase []
    rw [List.append_nil, List.append_nil] at hmoved
    exact ⟨rfl, hmoved⟩
  | emit time id source target reason =>
    obtain ⟨events, hold, hnew⟩ := h.emitted
    refine ⟨rfl, h.phases, h.tally, h.registries, h.budget, h.tool,
      ⟨events ++ [⟨time, id, source, target, reason, s.tool⟩], ?_, ?_⟩, h.later⟩
    · show s.emitted ++ _ = _
      rw [hold, List.append_assoc]
    · show s'.emitted ++ _ = _
      rw [hnew, List.append_assoc, h.tool]
  | restoreState saved =>
    obtain ⟨hphases, htally⟩ := restoreAll_congr h.phases h.tally saved.jobs
    obtain ⟨hjobs, htimeouts, hgates, hpolicies⟩ := registries_restore saved.jobs s.state
    obtain ⟨hjobs', htimeouts', hgates', hpolicies'⟩ := registries_restore saved.jobs s'.state
    refine ⟨rfl, hphases, htally, ⟨fun id => ?_, ?_, fun kind => ?_, fun kind => ?_⟩, h.budget, h.tool,
      h.emitted, h.later⟩
    · exact hjobs ▸ hjobs' ▸ h.registries.jobs id
    · exact htimeouts ▸ htimeouts' ▸ h.registries.timeouts
    · exact hgates ▸ hgates' ▸ h.registries.gates kind
    · exact hpolicies ▸ hpolicies' ▸ h.registries.retryPolicies kind
  | setTimeout id timeout =>
    refine ⟨rfl, h.phases, h.tally, ⟨h.registries.jobs, ?_, h.registries.gates,
      h.registries.retryPolicies⟩, h.budget, h.tool, h.emitted, h.later⟩
    show Map.get? (s'.state.timeouts.insert id timeout) = Map.get? (s.state.timeouts.insert id timeout)
    rw [Map.get?_insert_eq, Map.get?_insert_eq, h.registries.timeouts]
  | installBudget budget =>
    exact ⟨rfl, h.phases, h.tally, h.registries, .refl _ budget, h.tool, h.emitted, h.later⟩
  | _ => exact Bool.noConfusion hc

/-- **Twins answer in corresponding ways and stay twins.** -/
theorem handle (h : H.Twins past past' s s') {c c' : Cmd} {S : c.Resp → c'.Resp → Prop} (hc : H.Link c c' S) :
    S (Shigoto.handle H.old c s).1 (Shigoto.handle H.new c' s').1 ∧
      H.Twins past past' (Shigoto.handle H.old c s).2 (Shigoto.handle H.new c' s').2 := by
  obtain ⟨n, htime, htime'⟩ := h.time
  cases hc with
  | shared c hshared => exact h.handle_shared hshared
  | readGates id => exact ⟨⟨h.registries.gates id.kind, h.phases⟩, h.asked rfl rfl⟩
  | @consult gate gate' ctx ctx' hgate hctx =>
    refine ⟨?_, h.asked rfl rfl⟩
    show gate'.evaluate s'.time ctx' = gate.evaluate s.time ctx
    rw [htime, htime', hgate n ctx ctx' hctx]
  | tryAllocate id =>
    obtain ⟨hanswer, hbudget⟩ := h.budget.tryAllocate id fun _ _ => True.intro
    exact ⟨hanswer, h.phases, h.tally, h.registries, hbudget, h.tool, h.emitted, h.later⟩
  | readRetry id =>
    refine ⟨⟨h.registries.retryPolicies id.kind, ?_⟩, h.asked rfl rfl⟩
    show (_, _) = (_, _)
    rw [h.attempts, h.failureHistory]
  | @decide policy policy' hpolicy attempt history =>
    refine ⟨?_, h.asked rfl rfl⟩
    show policy'.decide H.new.floatJitter s'.time attempt history =
      policy.decide H.old.floatJitter s.time attempt history
    rw [htime, htime', hpolicy n attempt history]
  | lookupJob id => exact ⟨⟨h.registries.jobs id, congrFun h.registries.timeouts id⟩, h.asked rfl rfl⟩
  | spawn id hjob timeout =>
    cases hjob with
    | none => exact ⟨rfl, h.asked rfl rfl⟩
    | @some job job' hjob =>
      refine ⟨?_, h.asked rfl rfl⟩
      show Task.mk id ((job'.execute s'.time).within timeout) =
        Task.mk id ((job.execute s.time).within timeout)
      rw [htime, htime', hjob.execute n]
  | snapshotInner => exact ⟨h.phases, h.asked rfl rfl⟩
  | hashOrder => exact ⟨True.intro, h.asked rfl rfl⟩
  | snapshotState => exact ⟨True.intro, h.asked rfl rfl⟩
  | @registerJob job job' hjob =>
    refine ⟨True.intro, ?_, h.tally, h.registries.registerJob hjob, h.budget, h.tool, h.emitted, h.later⟩
    show Map.get? (seedPhase s'.state.phases job'.id) = Map.get? (seedPhase s.state.phases job.id)
    rw [get?_seedPhase, get?_seedPhase, h.phases, hjob.id]
  | registerGate kind hgate =>
    exact ⟨True.intro, h.phases, h.tally, h.registries.registerGate kind hgate, h.budget, h.tool,
      h.emitted, h.later⟩
  | registerRetryPolicy kind hpolicy =>
    exact ⟨True.intro, h.phases, h.tally, h.registries.registerRetryPolicy kind hpolicy, h.budget, h.tool,
      h.emitted, h.later⟩

end Twins

/-! ## Programs -/

/-- **Twins are connected for every graph**, as they agree on all jobs. -/
theorem connects (H : Handover) (dag : Dag) :
    Connects H.Link dag (fun _ => True) H.Gates H.Policies H.Jobs where
  preds _ _ _ _ := True.intro
  plain c hc := by
    refine .of_link (.shared c ?_)
    cases c with
    | now | seed id | phaseOf id | dispatch id signal | clearFailures id | recordFailure id
      | release id => rfl
    | _ => exact hc.elim
  waves := (Answers.of_link (.shared (.waves dag) rfl)).mono fun _ _ h => ⟨h, fun _ _ _ _ _ _ => True.intro⟩
  readGates id _ := (Answers.of_link (.readGates id)).mono fun _ _ h => ⟨h.1, fun id' _ => congrFun h.2 id'⟩
  consult _ _ _ _ hgate _ hctx :=
    .of_link (.consult hgate ⟨hctx.jobId, hctx.dag, funext fun id => hctx.snapshot id True.intro⟩)
  tryAllocate id _ := .of_link (.tryAllocate id)
  readRetry id _ := .of_link (.readRetry id)
  decide _ _ attempt history hpolicy := .of_link (.decide hpolicy attempt history)
  runningOf wave _ := (Answers.of_link (.shared (.runningOf wave) rfl)).mono fun _ _ h =>
    ⟨h, fun _ _ => True.intro⟩
  lookupJob id _ := .of_link (.lookupJob id)
  spawn id _ _ timeout _ hjob := (Answers.of_link (.spawn id hjob timeout)).mono fun _ _ h =>
    ⟨h, True.intro⟩
  join tasks _ := (Answers.of_link (.shared (.join tasks) rfl)).mono fun _ _ h => ⟨h, fun _ _ => True.intro⟩
  snapshotInner := (Answers.of_link .snapshotInner).mono fun _ _ h id _ => congrFun h id
  hashOrder := .of_link .hashOrder

theorem same_lock {c : Cmd} (h : c.shared = true) : Lockstep H.Link (lock c) (lock c) :=
  related_perform (.shared c h)

theorem related_tick (dag : Dag) : Related H.Link TickReceipt.Twin (tick dag) (tick dag) := by
  refine related_mono (connects H dag).tick fun receipt receipt' h => ?_
  obtain ⟨snapshot, snapshot', hagree, hcounts, hcounts', ⟨rank, spelling, hunhealed⟩, ⟨rank', spelling',
    hunhealed'⟩⟩ := h.snapshots
  have htwin : snapshot.Twin snapshot' := funext fun id => hagree id True.intro
  refine ⟨h.tickAt, h.transitionsThisTick, fun name => ?_, ?_⟩
  · rw [hcounts, hcounts']
    exact htwin.phaseCounts name
  · rw [hunhealed, hunhealed']
    exact collectUnhealed_perm htwin

/-! ## Calls -/

variable (H) in
/-- The same call, with what corresponds in it. -/
inductive Calls : Call → Call → Prop
  | shared (call : Call) (h : call.shared = true) : Calls call call
  | registerGate (kind : JobKindId) {gate gate' : Gate} (h : H.Gates gate gate') :
    Calls (.registerGate kind gate) (.registerGate kind gate')
  | registerRetryPolicy (kind : JobKindId) {policy policy' : RetryPolicy} (h : H.Policies policy policy') :
    Calls (.registerRetryPolicy kind policy) (.registerRetryPolicy kind policy')
  | registerJob {job job' : ErasedJob} (h : H.Jobs job job') : Calls (.registerJob job) (.registerJob job')

theorem Calls.related {call call' : Call} (h : H.Calls call call') :
    Related H.Link (fun _ _ => True) call.prog call'.prog := by
  cases h with
  | shared _ hshared =>
    cases call with
    | operatorTransition id target reason =>
      refine lockstep_bind (same_lock rfl) fun source => ?_
      unfold operatorTransitionFrom
      split
      · rfl
      · refine lockstep_bind (same_lock rfl) fun _ => lockstep_bind (same_lock rfl) fun time => ?_
        exact related_mono (same_lock rfl) fun _ _ _ => True.intro
    | tick dag => exact related_bind (related_tick dag) fun _ _ _ => True.intro
    | snapshot => exact related_perform_bind .snapshotInner fun _ _ _ => True.intro
    | snapshotState => exact related_perform_bind .snapshotState fun _ _ _ => True.intro
    | installBudget budget => exact related_mono (same_lock rfl) fun _ _ _ => True.intro
    | setTimeout id timeout => exact related_mono (same_lock rfl) fun _ _ _ => True.intro
    | restoreState saved => exact related_mono (same_lock rfl) fun _ _ _ => True.intro
    | _ => exact Bool.noConfusion hshared
  | registerGate kind hgate => exact related_perform (.registerGate kind hgate)
  | registerRetryPolicy kind hpolicy => exact related_perform (.registerRetryPolicy kind hpolicy)
  | registerJob hjob => exact related_perform (.registerJob hjob)

/-- **Corresponding calls keep twins.** -/
theorem Twins.runCalls {m m' : SchedMachine} (h : H.Twins past past' m.state m'.state)
    {calls calls' : List Call} (hcalls : List.Forall₂ H.Calls calls calls') :
    H.Twins past past' (runCalls H.old calls m).state (runCalls H.new calls' m').state := by
  refine related_execAll (L := H.Link) (R := fun _ _ => True) (fun _ _ _ _ _ hE hc => hE.handle hc) ?_ h
  induction hcalls with
  | nil => exact .nil
  | cons hcall _ ih => exact .cons hcall.related ih

end Handover

end Shigoto
