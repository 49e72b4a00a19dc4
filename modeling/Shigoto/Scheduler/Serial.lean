import Shigoto.Atomic.Separate
import Shigoto.Scheduler.Alike
import Shigoto.Scheduler.Drivers
import Shigoto.Scheduler.Legality
import Shigoto.Scheduler.Linked
import Shigoto.Waves

/-!
# Ticks on graphs of their own

Several ticks share one scheduler, and no job is in the graphs of two of them. If no cap counts jobs of two
graphs, and the gates look at no jobs but those of the graph that they are shown, then the ticks do not see
each other: under every schedule each of them does what it does alone, in a world where time passes for it
only while it holds the lock (`World.retimed`).
-/

namespace Shigoto

open Atomic

/-! ## Another time -/

def Gate.retimed (τ : Nat → Nat) (gate : Gate) : Gate := ⟨fun n ctx => gate.evaluate (τ n) ctx⟩

def RetryPolicy.retimed (τ : Nat → Nat) : RetryPolicy → RetryPolicy
  | .custom decider => .custom fun n attempt history => decider (τ n) attempt history
  | policy => policy

def ErasedJob.retimed (τ : Nat → Nat) (job : ErasedJob) : ErasedJob :=
  { job with execute := fun n => job.execute (τ n) }

/-- The world in which the moment `n` is the moment `τ n` of this one. -/
def World.retimed (τ : Nat → Nat) (w : World) : World :=
  { w with
    clock := fun n => w.clock (τ n)
    order := fun n => w.order (τ n)
    spelling := fun n => w.spelling (τ n) }

def SchedulerState.retimed (τ : Nat → Nat) (state : SchedulerState) : SchedulerState :=
  { state with
    jobs := state.jobs.mapValues (ErasedJob.retimed τ)
    gates := state.gates.mapValues (List.map (Gate.retimed τ))
    retryPolicies := state.retryPolicies.mapValues (RetryPolicy.retimed τ) }

/-- The scheduler in that world, to which nothing has been done yet. -/
def InProcessScheduler.retimed (τ : Nat → Nat) (s : InProcessScheduler) : InProcessScheduler :=
  { s with
    state := s.state.retimed τ
    time := 0 }

theorem RetryPolicy.decide_retimed (τ : Nat → Nat) (floatJitter : UInt64 → F64 → UInt32 → UInt64) (n : Nat)
    (policy : RetryPolicy) (attempt : UInt32) (history : List FailureRecord) :
    (policy.retimed τ).decide floatJitter n attempt history =
      policy.decide floatJitter (τ n) attempt history := by
  cases policy <;> rfl

/-! ## The jobs of a graph -/

/-- The gate looks at no jobs but those of the graph that it is shown. -/
def Gate.Local (gate : Gate) : Prop :=
  ∀ time ctx ctx', ctx.Agree (· ∈ ctx.dag.graph.ids) ctx' → gate.evaluate time ctx' = gate.evaluate time ctx

namespace Dag

/-- What counts jobs of the graph. -/
def dims (dag : Dag) (d : Dim) : Prop := ∃ id ∈ dag.graph.ids, d.covers id = true

def eventsOf (dag : Dag) (events : List TransitionEvent) : List TransitionEvent :=
  events.filter fun event => event.jobId ∈ dag.graph.ids

/-- The graphs share no job, and no cap counts jobs of both. -/
structure Separate (caps : Dim → Option UInt32) (dag dag' : Dag) : Prop where
  jobs : ∀ id ∈ dag.graph.ids, id ∉ dag'.graph.ids
  caps : ∀ d, (caps d).isSome = true → dag.dims d → ¬ dag'.dims d

theorem Separate.symm {caps : Dim → Option UInt32} {dag dag' : Dag} (h : dag.Separate caps dag') :
    dag'.Separate caps dag :=
  ⟨fun id hid hid' => h.jobs id hid' hid, fun d hd hdims hdims' => h.caps d hd hdims' hdims⟩

theorem mem_ids_of_mem_predecessors {dag : Dag} {id pred : JobId} (h : pred ∈ dag.predecessors id) :
    pred ∈ dag.graph.ids := by
  unfold predecessors parentsAt at h
  split at h
  · exact absurd h List.not_mem_nil
  · obtain ⟨p, -, hp⟩ := List.mem_filterMap.mp h
    exact List.mem_of_getElem? hp

/-- The waves are of jobs of the graph, whatever sorts it. -/
theorem mem_ids_of_mem_waves {sort : Toposort} {rank : JobId → Nat} {dag : Dag} {ws : List (List JobId)}
    (h : dag.waves sort rank none = .ok ws) {wave : List JobId} (hwave : wave ∈ ws) {id : JobId}
    (hid : id ∈ wave) : id ∈ dag.graph.ids := by
  unfold waves toposort at h
  split at h
  · cases h
  · next order horder =>
    obtain rfl := Except.ok.inj h
    obtain ⟨k, hk⟩ := List.getElem?_of_mem hwave
    have hget := (mem_groupWaves hk id).mp hid
    split at horder
    · obtain rfl := Except.ok.inj horder
      by_contra hnot
      rw [get?_assignWaves_of_not_mem fun hmem => ?_, Map.get?_empty] at hget
      · cases hget
      · obtain ⟨i, -, hi⟩ := List.mem_filterMap.mp hmem
        exact hnot (List.mem_of_getElem? hi)
    · cases horder

end Dag

/-! ## What a tick sees -/

theorem tally_recordFailure_ne {state : SchedulerState} {id id' : JobId} (hne : id' ≠ id) (now : DateTime) :
    (state.recordFailure id now).tally id' = state.tally id' :=
  Prod.ext (Map.get?_insert_ne _ _ hne) (Map.get?_insert_ne _ _ hne)

theorem tally_recordFailure_self {state state' : SchedulerState} {id : JobId}
    (h : state'.tally id = state.tally id) (now : DateTime) :
    (state'.recordFailure id now).tally id = (state.recordFailure id now).tally id := by
  have hattempts : Map.get? state'.attempts id = Map.get? state.attempts id := congrArg Prod.fst h
  have hhistory : Map.get? state'.failureHistory id = Map.get? state.failureHistory id := congrArg Prod.snd h
  unfold SchedulerState.recordFailure SchedulerState.tally
  simp only [Map.get?_insert_self, hattempts, hhistory]

/-- The scheduler `s`, on which others work too, is for the jobs of `dag` the scheduler `s'`, which has the
time `τ`. -/
structure Sees (caps : Dim → Option UInt32) (dag : Dag) (τ : Nat → Nat) (s s' : InProcessScheduler) :
    Prop where
  phases : ∀ id ∈ dag.graph.ids, Map.get? s'.state.phases id = Map.get? s.state.phases id
  tally : ∀ id ∈ dag.graph.ids, s'.state.tally id = s.state.tally id
  setup : (s.state.retimed τ).SameSetup s'.state
  gates : ∀ kind, ∀ gate ∈ (s.state.gates.get? kind).getD [], gate.Local
  caps : s.budget.cap = caps
  budget : s.budget.Level dag.dims s'.budget
  tool : s'.tool = s.tool
  emitted : dag.eventsOf s'.emitted = dag.eventsOf s.emitted

/-- The commands that change nothing but the jobs `mine`. -/
def Cmd.within (mine : JobId → Prop) : Cmd → Prop
  | .seed id | .dispatch id _ | .tryAllocate id | .clearFailures id | .recordFailure id
  | .release id => mine id
  | .now | .waves _ | .phaseOf _ | .readGates _ | .consult _ _ | .readRetry _ | .decide _ _ _
  | .runningOf _ | .lookupJob _ | .spawn _ _ _ | .join _ | .snapshotInner | .hashOrder => True
  | _ => False

namespace Sees

variable {w : World} {caps : Dim → Option UInt32} {dag dag' : Dag} {τ : Nat → Nat}
  {s s' : InProcessScheduler} {id : JobId}

theorem start (s : InProcessScheduler)
    (hgates : ∀ kind, ∀ gate ∈ (s.state.gates.get? kind).getD [], gate.Local) (dag : Dag)
    (τ : Nat → Nat) : Sees s.budget.cap dag τ s (s.retimed τ) :=
  ⟨fun _ _ => rfl, fun _ _ => rfl, .refl _, hgates, rfl, .refl _ _, rfl, rfl⟩

theorem phase (h : Sees caps dag τ s s') (hid : id ∈ dag.graph.ids) : s'.phase id = s.phase id :=
  congrArg (Option.getD · JobPhase.pending) (h.phases id hid)

/-- Neither side has changed, but for the time. -/
theorem asked (h : Sees caps dag τ s s') {c c' : Cmd} (hasks : (effect w c s).2 = s)
    (hasks' : (effect (w.retimed τ) c' s').2 = s') :
    Sees caps dag τ (handle w c s).2 (handle (w.retimed τ) c' s').2 := by
  unfold handle
  rw [hasks, hasks']
  exact ⟨h.phases, h.tally, h.setup, h.gates, h.caps, h.budget, h.tool, h.emitted⟩

/-- The jobs of other graphs change on the one side. -/
theorem elsewhere (h : Sees caps dag τ s s') {mine : JobId → Prop}
    (hjobs : ∀ id, mine id → id ∉ dag.graph.ids)
    (hcaps : ∀ id, mine id → ∀ d, dag.dims d → (caps d).isSome = true → d.covers id = false) {c : Cmd}
    (hc : c.within mine) : Sees caps dag τ (handle w c s).2 s' := by
  have hne : ∀ {id id'}, mine id → id' ∈ dag.graph.ids → id' ≠ id := fun hid hid' heq =>
    hjobs _ hid (heq ▸ hid')
  have hsetup : ∀ phases attempts history, ({ s.state with
      phases := phases
      attempts := attempts
      failureHistory := history } : SchedulerState).retimed τ |>.SameSetup s'.state := fun _ _ _ =>
    ⟨h.setup.jobs, h.setup.timeouts, h.setup.gates, h.setup.retryPolicies⟩
  cases c with
  | seed id =>
    refine ⟨fun id' hid' => ?_, h.tally, hsetup _ _ _, h.gates, h.caps, h.budget, h.tool, h.emitted⟩
    show Map.get? s'.state.phases id' = Map.get? (seedPhase s.state.phases id) id'
    rw [get?_seedPhase, modifyAt_apply, if_neg (hne hc hid'), h.phases id' hid']
  | dispatch id signal =>
    cases hadvance : advance (s.phase id) signal with
    | error e =>
      unfold handle
      rw [effect_dispatch_error w hadvance]
      exact ⟨h.phases, h.tally, h.setup, h.gates, h.caps, h.budget, h.tool, h.emitted⟩
    | ok target =>
      unfold handle
      rw [effect_dispatch_ok w hadvance]
      refine ⟨fun id' hid' => ?_, h.tally, hsetup _ _ _, h.gates, h.caps, h.budget, h.tool, ?_⟩
      · show Map.get? s'.state.phases id' = Map.get? (s.state.phases.insert id target) id'
        rw [Map.get?_insert_ne _ _ (hne hc hid'), h.phases id' hid']
      · have hnot : id ∉ dag.graph.ids := hjobs id hc
        have hevent : dag.eventsOf [dispatchEvent w s id signal target] = [] := by
          simp [Dag.eventsOf, dispatchEvent, hnot]
        show dag.eventsOf s'.emitted = dag.eventsOf (s.emitted ++ [_])
        rw [Dag.eventsOf, Dag.eventsOf, List.filter_append]
        exact h.emitted.trans ((List.append_nil _).symm.trans (congrArg _ hevent.symm))
  | tryAllocate id =>
    refine ⟨h.phases, h.tally, h.setup, h.gates, ?_, ?_, h.tool, h.emitted⟩
    · exact (BudgetTree.cap_tryAllocate s.budget id).trans h.caps
    · exact h.budget.tryAllocate_left fun d hd hcap => hcaps id hc d hd (h.caps ▸ hcap)
  | release id =>
    refine ⟨h.phases, h.tally, h.setup, h.gates, h.caps, ?_, h.tool, h.emitted⟩
    exact h.budget.release_left fun d hd hcap => hcaps id hc d hd (h.caps ▸ hcap)
  | clearFailures id =>
    refine ⟨h.phases, fun id' hid' => (h.tally id' hid').trans ?_, hsetup _ _ _, h.gates, h.caps, h.budget,
      h.tool, h.emitted⟩
    exact Prod.ext (Map.get?_erase_ne _ (hne hc hid')).symm (Map.get?_erase_ne _ (hne hc hid')).symm
  | recordFailure id =>
    refine ⟨h.phases, fun id' hid' => (h.tally id' hid').trans ?_, hsetup _ _ _, h.gates, h.caps, h.budget,
      h.tool, h.emitted⟩
    exact (tally_recordFailure_ne (hne hc hid') _).symm
  | spawn id job timeout =>
    cases job <;> exact ⟨h.phases, h.tally, h.setup, h.gates, h.caps, h.budget, h.tool, h.emitted⟩
  | now | waves dag | phaseOf id | readGates id | consult gate ctx | readRetry id
    | decide policy attempt history | runningOf wave | lookupJob id | join tasks | snapshotInner
    | hashOrder => exact ⟨h.phases, h.tally, h.setup, h.gates, h.caps, h.budget, h.tool, h.emitted⟩
  | _ => exact hc.elim

/-- A signal to a job of the graph does the same on both sides. -/
theorem handle_dispatch (h : Sees caps dag τ s s') (hτ : τ s'.time = s.time) (hid : id ∈ dag.graph.ids)
    (signal : Signal) :
    (handle (w.retimed τ) (.dispatch id signal) s').1 = (handle w (.dispatch id signal) s).1 ∧
      Sees caps dag τ (handle w (.dispatch id signal) s).2
        (handle (w.retimed τ) (.dispatch id signal) s').2 := by
  have hsame := h.phase hid
  cases hadvance : advance (s.phase id) signal with
  | error e =>
    have hadvance' : advance (s'.phase id) signal = .error e := hsame ▸ hadvance
    refine ⟨?_, h.asked (by rw [effect_dispatch_error _ hadvance])
      (by rw [effect_dispatch_error _ hadvance'])⟩
    simp only [handle, effect_dispatch_error _ hadvance, effect_dispatch_error _ hadvance']
  | ok target =>
    have hadvance' : advance (s'.phase id) signal = .ok target := hsame ▸ hadvance
    have hevent : dispatchEvent (w.retimed τ) s' id signal target = dispatchEvent w s id signal target := by
      unfold dispatchEvent
      rw [hsame, h.tool, show (w.retimed τ).clock s'.time = w.clock s.time from congrArg w.clock hτ]
    rw [answer_dispatch_ok _ hadvance, answer_dispatch_ok _ hadvance', hevent]
    refine ⟨rfl, ?_⟩
    simp only [handle, effect_dispatch_ok _ hadvance, effect_dispatch_ok _ hadvance', hevent]
    refine ⟨fun id' hid' => ?_, h.tally, ⟨h.setup.jobs, h.setup.timeouts, h.setup.gates,
      h.setup.retryPolicies⟩, h.gates, h.caps, h.budget, h.tool, ?_⟩
    · show Map.get? (s'.state.phases.insert id target) id' = Map.get? (s.state.phases.insert id target) id'
      rw [Map.get?_insert, Map.get?_insert, h.phases id' hid']
    · show dag.eventsOf (s'.emitted ++ [_]) = dag.eventsOf (s.emitted ++ [_])
      unfold Dag.eventsOf
      rw [List.filter_append, List.filter_append]
      exact congrArg (· ++ _) h.emitted

/-- A command about jobs of the graph is answered in the same way on both sides. -/
theorem handle_about (h : Sees caps dag τ s s') (hτ : τ s'.time = s.time) {c : Cmd}
    (hc : c.about (· ∈ dag.graph.ids)) :
    (handle (w.retimed τ) c s').1 = (handle w c s).1 ∧
      Sees caps dag τ (handle w c s).2 (handle (w.retimed τ) c s').2 := by
  have hsetup : ∀ phases attempts history phases' attempts' history', ({ s.state with
      phases := phases
      attempts := attempts
      failureHistory := history } : SchedulerState).retimed τ |>.SameSetup { s'.state with
        phases := phases'
        attempts := attempts'
        failureHistory := history' } := fun _ _ _ _ _ _ =>
    ⟨h.setup.jobs, h.setup.timeouts, h.setup.gates, h.setup.retryPolicies⟩
  have hclock : (w.retimed τ).clock s'.time = w.clock s.time := congrArg w.clock hτ
  cases c with
  | now => exact ⟨hclock, h.asked rfl rfl⟩
  | phaseOf id => exact ⟨h.phase hc, h.asked rfl rfl⟩
  | dispatch id signal => exact h.handle_dispatch hτ hc signal
  | seed id =>
    refine ⟨rfl, fun id' hid' => ?_, h.tally, hsetup _ _ _ _ _ _, h.gates, h.caps, h.budget, h.tool, h.emitted⟩
    show Map.get? (seedPhase s'.state.phases id) id' = Map.get? (seedPhase s.state.phases id) id'
    rw [get?_seedPhase, get?_seedPhase, modifyAt_apply, modifyAt_apply, h.phases id' hid', h.phases id hc]
  | clearFailures id =>
    refine ⟨rfl, h.phases, fun id' hid' => ?_, hsetup _ _ _ _ _ _, h.gates, h.caps, h.budget, h.tool,
      h.emitted⟩
    have htally := Prod.ext_iff.mp (h.tally id' hid')
    refine Prod.ext ?_ ?_
    · show Map.get? (s'.state.attempts.erase id) id' = Map.get? (s.state.attempts.erase id) id'
      rw [Map.get?_erase, Map.get?_erase]
      exact congrArg _ htally.1
    · show Map.get? (s'.state.failureHistory.erase id) id' = Map.get? (s.state.failureHistory.erase id) id'
      rw [Map.get?_erase, Map.get?_erase]
      exact congrArg _ htally.2
  | recordFailure id =>
    refine ⟨rfl, h.phases, fun id' hid' => ?_, hsetup _ _ _ _ _ _, h.gates, h.caps, h.budget, h.tool,
      h.emitted⟩
    show (s'.state.recordFailure id ((w.retimed τ).clock s'.time)).tally id' =
      (s.state.recordFailure id (w.clock s.time)).tally id'
    rw [hclock]
    by_cases hid : id' = id
    · exact hid ▸ tally_recordFailure_self (h.tally id hc) _
    · rw [tally_recordFailure_ne hid, tally_recordFailure_ne hid, h.tally id' hid']
  | release id =>
    exact ⟨rfl, h.phases, h.tally, h.setup, h.gates, h.caps, h.budget.release id, h.tool, h.emitted⟩
  | _ => exact hc.elim

/-! ### What is registered -/

theorem gatesOf (h : Sees caps dag τ s s') (kind : JobKindId) :
    List.Forall₂ (fun gate gate' => gate.Local ∧ gate' = gate.retimed τ)
      ((s.state.gates.get? kind).getD []) ((s'.state.gates.get? kind).getD []) := by
  have hget : (s'.state.gates.get? kind).getD [] =
      ((s.state.gates.get? kind).getD []).map (Gate.retimed τ) := by
    rw [h.setup.gates]
    show ((s.state.gates.mapValues _).get? kind).getD [] = _
    rw [Map.get?_mapValues]
    cases s.state.gates.get? kind <;> rfl
  rw [hget, List.forall₂_map_right_iff, List.forall₂_same]
  exact fun gate hgate => ⟨h.gates kind gate hgate, rfl⟩

theorem policyOf (h : Sees caps dag τ s s') (kind : JobKindId) :
    (s'.state.retryPolicies.get? kind).getD .noRetry =
      ((s.state.retryPolicies.get? kind).getD .noRetry).retimed τ := by
  rw [h.setup.retryPolicies]
  show ((s.state.retryPolicies.mapValues _).get? kind).getD _ = _
  rw [Map.get?_mapValues]
  cases s.state.retryPolicies.get? kind <;> rfl

theorem jobOf (h : Sees caps dag τ s s') (id : JobId) :
    Option.Rel (fun job job' => job' = job.retimed τ) (s.state.jobs.get? id) (s'.state.jobs.get? id) := by
  rw [h.setup.jobs]
  show Option.Rel _ _ ((s.state.jobs.mapValues _).get? id)
  rw [Map.get?_mapValues]
  cases s.state.jobs.get? id with
  | none => exact .none
  | some job => exact .some rfl

theorem timeoutOf (h : Sees caps dag τ s s') (id : JobId) :
    s'.state.timeouts.get? id = s.state.timeouts.get? id := by
  rw [h.setup.timeouts]
  rfl

end Sees

/-! ## Ticks see the same -/

/-- The commands that change nothing but jobs of `dag`, and are answered to whoever sees only these jobs as
they would be if nobody else worked on the scheduler. -/
def seeing (w : World) (caps : Dim → Option UInt32) (dag : Dag) (τ : Nat → Nat) : Link schedInterface :=
  fun c c' S => Cmd.within (· ∈ dag.graph.ids) c ∧ ∀ s s', Sees caps dag τ s s' → τ s'.time = s.time →
    S (handle w c s).1 (handle (w.retimed τ) c' s').1 ∧
      Sees caps dag τ (handle w c s).2 (handle (w.retimed τ) c' s').2

section

variable {w : World} {caps : Dim → Option UInt32} {dag : Dag} {τ : Nat → Nat}

/-- A command that changes nothing needs a corresponding answer only. -/
theorem answers_seeing {c c' : Cmd} {S : c.Resp → c'.Resp → Prop} (hc : c.within (· ∈ dag.graph.ids))
    (hasks : ∀ s, (effect w c s).2 = s) (hasks' : ∀ s, (effect (w.retimed τ) c' s).2 = s)
    (hanswer : ∀ s s', Sees caps dag τ s s' → τ s'.time = s.time →
      S (effect w c s).1 (effect (w.retimed τ) c' s').1) : Answers (seeing w caps dag τ) c c' S :=
  .of_link ⟨hc, fun s s' h hτ => ⟨hanswer s s' h hτ, h.asked (hasks s) (hasks' s')⟩⟩

/-! ### The beginning of a tick -/

theorem answers_waves : Answers (seeing w caps dag τ) (.waves dag) (.waves dag) fun r r' => r' = r ∧
    ∀ ws, r = .ok ws → ∀ wave ∈ ws, ∀ id ∈ wave, id ∈ dag.graph.ids := by
  refine answers_seeing True.intro (fun _ => rfl) (fun _ => rfl) fun s s' h hτ => ⟨?_, ?_⟩
  · show dag.waves w.toposort (w.order (τ s'.time)) none = dag.waves w.toposort (w.order s.time) none
    rw [hτ]
  · exact fun ws hws wave hwave id hid => Dag.mem_ids_of_mem_waves hws hwave hid

/-! ### Gates and retry policies -/

theorem answers_consult {gate : Gate} (hlocal : gate.Local) {ctx ctx' : GateContext} (hdag : ctx.dag = dag)
    (hctx : ctx.Agree (· ∈ dag.graph.ids) ctx') :
    Answers (seeing w caps dag τ) (.consult gate ctx) (.consult (gate.retimed τ) ctx')
      fun r r' => r' = r := by
  refine answers_seeing True.intro (fun _ => rfl) (fun _ => rfl) fun s s' h hτ => ?_
  show gate.evaluate (τ s'.time) ctx' = gate.evaluate s.time ctx
  rw [hτ]
  exact hlocal s.time ctx ctx' (hdag ▸ hctx)

theorem answers_readRetry {id : JobId} (hid : id ∈ dag.graph.ids) :
    Answers (seeing w caps dag τ) (.readRetry id) (.readRetry id) fun r r' =>
      r'.1 = r.1.retimed τ ∧ r'.2 = r.2 := by
  refine answers_seeing True.intro (fun _ => rfl) (fun _ => rfl) fun s s' h hτ => ⟨h.policyOf id.kind, ?_⟩
  have htally := Prod.ext_iff.mp (h.tally id hid)
  exact Prod.ext (congrArg (Option.getD · 1) htally.1) (congrArg (Option.getD · []) htally.2)

theorem answers_decide (policy : RetryPolicy) (attempt : UInt32) (history : List FailureRecord) :
    Answers (seeing w caps dag τ) (.decide policy attempt history)
      (.decide (policy.retimed τ) attempt history) fun r r' => r' = r := by
  refine answers_seeing True.intro (fun _ => rfl) (fun _ => rfl) fun s s' h hτ => ?_
  show (policy.retimed τ).decide w.floatJitter s'.time attempt history =
    policy.decide w.floatJitter s.time attempt history
  rw [RetryPolicy.decide_retimed, hτ]

/-! ### Executing -/

theorem answers_runningOf {wave : List JobId} (hwave : ∀ id ∈ wave, id ∈ dag.graph.ids) :
    Answers (seeing w caps dag τ) (.runningOf wave) (.runningOf wave) fun r r' =>
      r' = r ∧ ∀ id ∈ r, id ∈ dag.graph.ids := by
  refine answers_seeing True.intro (fun _ => rfl) (fun _ => rfl) fun s s' h hτ => ⟨?_, fun id hid => ?_⟩
  · show wave.filter _ = wave.filter _
    exact List.filter_congr fun id hid => by rw [h.phases id (hwave id hid)]
  · exact hwave id (List.mem_of_mem_filter hid)

theorem answers_spawn {id : JobId} (hid : id ∈ dag.graph.ids) {job job' : Option ErasedJob}
    (hjob : Option.Rel (fun job job' => job' = job.retimed τ) job job') (timeout : Option Duration) :
    Answers (seeing w caps dag τ) (.spawn id job timeout) (.spawn id job' timeout) fun r r' =>
      r' = r ∧ r.id ∈ dag.graph.ids := by
  cases hjob with
  | none => exact answers_seeing True.intro (fun _ => rfl) (fun _ => rfl) fun s s' h hτ => ⟨rfl, hid⟩
  | @some job job' hjob =>
    subst hjob
    refine answers_seeing True.intro (fun _ => rfl) (fun _ => rfl) fun s s' h hτ => ⟨?_, hid⟩
    show Task.mk id ((job.execute (τ s'.time)).within timeout) =
      Task.mk id ((job.execute s.time).within timeout)
    rw [hτ]

theorem answers_join {tasks : List Task} (htasks : ∀ task ∈ tasks, task.id ∈ dag.graph.ids) :
    Answers (seeing w caps dag τ) (.join tasks) (.join tasks) fun r r' =>
      r' = r ∧ ∀ x ∈ r, x.1 ∈ dag.graph.ids := by
  refine answers_seeing True.intro (fun _ => rfl) (fun _ => rfl) fun s s' h hτ => ⟨?_, fun x hx => ?_⟩
  · show (tasks.insertionSort fun a b => w.order (τ s'.time) a.id ≤ w.order (τ s'.time) b.id).filterMap _ =
      (tasks.insertionSort fun a b => w.order s.time a.id ≤ w.order s.time b.id).filterMap _
    rw [hτ]
  · obtain ⟨task, htask, hresult⟩ := List.mem_filterMap.mp hx
    obtain ⟨result, -, rfl⟩ := Option.map_eq_some_iff.mp hresult
    exact htasks task ((List.perm_insertionSort _ tasks).mem_iff.mp htask)

end

/-- **Whoever sees only the jobs of the graph is answered as if it were alone.** -/
theorem seeing_connects (w : World) (caps : Dim → Option UInt32) (dag : Dag) (τ : Nat → Nat) :
    Connects (seeing w caps dag τ) dag (· ∈ dag.graph.ids)
      (fun gate gate' => gate.Local ∧ gate' = gate.retimed τ)
      (fun policy policy' => policy' = policy.retimed τ) (fun job job' => job' = job.retimed τ) where
  preds _ _ _ hpred := Dag.mem_ids_of_mem_predecessors hpred
  plain c hc := by
    refine .of_link ⟨?_, fun s s' h hτ => h.handle_about hτ hc⟩
    cases c with
    | now | phaseOf id => exact True.intro
    | seed id | dispatch id signal | clearFailures id | recordFailure id | release id => exact hc
    | _ => exact hc.elim
  waves := answers_waves
  readGates id _ := answers_seeing True.intro (fun _ => rfl) (fun _ => rfl) fun s s' h _ =>
    ⟨h.gatesOf id.kind, h.phases⟩
  consult _ _ _ _ hgate hdag hctx := hgate.2 ▸ answers_consult hgate.1 hdag hctx
  tryAllocate id hid := by
    refine .of_link ⟨hid, fun s s' h hτ => ?_⟩
    obtain ⟨hanswer, hbudget⟩ := h.budget.tryAllocate id fun d hd => ⟨id, hid, hd⟩
    refine ⟨hanswer, h.phases, h.tally, h.setup, h.gates, ?_, hbudget, h.tool, h.emitted⟩
    exact (BudgetTree.cap_tryAllocate s.budget id).trans h.caps
  readRetry _ hid := answers_readRetry hid
  decide policy _ attempt history hpolicy := hpolicy ▸ answers_decide policy attempt history
  runningOf _ hwave := answers_runningOf hwave
  lookupJob id _ := answers_seeing True.intro (fun _ => rfl) (fun _ => rfl) fun s s' h _ =>
    ⟨h.jobOf id, h.timeoutOf id⟩
  spawn _ _ _ timeout hid hjob := answers_spawn hid hjob timeout
  join _ htasks := answers_join htasks
  hashOrder := answers_seeing True.intro (fun _ => rfl) (fun _ => rfl) fun _ _ _ _ => True.intro
  snapshotInner := answers_seeing True.intro (fun _ => rfl) (fun _ => rfl) fun _ _ h _ => h.phases

/-! ## The result -/

/-- For the jobs of the graph, the scheduler `s` is what `alone` is. -/
structure Dag.Same (dag : Dag) (s alone : InProcessScheduler) : Prop where
  phases : ∀ id ∈ dag.graph.ids, s.phase id = alone.phase id
  attempts : ∀ id ∈ dag.graph.ids, s.state.attempts.get? id = alone.state.attempts.get? id
  failureHistory : ∀ id ∈ dag.graph.ids,
    s.state.failureHistory.get? id = alone.state.failureHistory.get? id
  emitted : dag.eventsOf s.emitted = dag.eventsOf alone.emitted

/-- The tick has ended in the same way: it failed with the same error, or its receipt has the same
transitions. -/
def SameEnd : Sched TickReceipt → Except SchedulerError TickReceipt → Prop
  | .ret receipt, .ok receipt' => receipt.tickAt = receipt'.tickAt ∧
    receipt.transitionsThisTick = receipt'.transitionsThisTick
  | .fail e, .error e' => e = e'
  | _, _ => False

variable {w : World} {caps : Dim → Option UInt32}

/-- The graph of thread `t`; the others have none. -/
def dagAt (dags : List Dag) (t : Nat) : Dag := (dags[t]?).getD .new

theorem separate_at {dags : List Dag} (h : dags.Pairwise (Dag.Separate caps)) {t u : Nat} (hne : u ≠ t) :
    (dagAt dags t).Separate caps (dagAt dags u) := by
  have hnew : ∀ dag : Dag, dag.Separate caps .new := fun dag =>
    ⟨fun _ _ => List.not_mem_nil, fun d _ _ hdims => by
      obtain ⟨id, hid, -⟩ := hdims
      exact absurd hid List.not_mem_nil⟩
  unfold dagAt
  cases ht : dags[t]? with
  | none => exact (hnew _).symm
  | some dag =>
    cases hu : dags[u]? with
    | none => exact hnew dag
    | some dag' =>
      obtain ⟨hlt, rfl⟩ := List.getElem?_eq_some_iff.mp ht
      obtain ⟨hlt', rfl⟩ := List.getElem?_eq_some_iff.mp hu
      rcases Nat.lt_or_gt_of_ne hne with hless | hless
      · exact (List.pairwise_iff_getElem.mp h u t hlt' hlt hless).symm
      · exact List.pairwise_iff_getElem.mp h t u hlt hlt' hless

/-- A tick that runs alone, in the time `τ`. -/
def tickAlone (w : World) (s : InProcessScheduler) (τ : Nat → Nat) (dag : Dag) :
    Except SchedulerError TickReceipt × SchedMachine :=
  (tick dag).exec (handle (w.retimed τ)) 0 (s.retimed τ).start

/-- What thread `t` sees, and how far it has come. -/
def seesAt (caps : Dim → Option UInt32) (dags : List Dag) (τ : Nat → Nat → Nat) (t : Nat)
    (m m' : SchedMachine) : Prop :=
  Sees caps (dagAt dags t) (τ t) m.state m'.state ∧ m'.state.time = issued t m.log

theorem drivers_beside (w : World) {s : InProcessScheduler}
    (hgates : ∀ kind, ∀ gate ∈ (s.state.gates.get? kind).getD [], gate.Local) {dags : List Dag}
    (hseparate : dags.Pairwise (Dag.Separate s.budget.cap)) {τ : Nat → Nat → Nat} {schedule : List Nat}
    (hpunctual : ∀ t, Meets (Punctual InProcessScheduler.time t (τ t))
      ((drivers s dags).run (handle w) schedule).machine.log) (t : Nat) :
    ((drivers s dags).run (handle w) schedule).Beside (fun t => handle (w.retimed (τ t)))
      (fun t => seeing w s.budget.cap (dagAt dags t) (τ t))
      (fun t => TickReceipt.Linked (· ∈ (dagAt dags t).graph.ids)) (seesAt s.budget.cap dags τ)
      (fun t => tickAlone w s (τ t) (dagAt dags t)) t := by
  refine Config.run_separate ?_ ?_ schedule ?_ hpunctual t
  · -- a command of the thread itself
    intro t m m' c c' S hsees hlink htime
    have hnow : τ t m'.state.time = m.state.time := hsees.2 ▸ htime rfl
    obtain ⟨hanswer, hsees'⟩ := hlink.2 m.state m'.state hsees.1 hnow
    refine ⟨hanswer, hsees', ?_⟩
    show m'.state.time + 1 = issued t (⟨t, c, m.state⟩ :: m.log)
    rw [issued_cons_self, hsees.2]
  · -- a command of another one
    intro t u m m' c c' S hne hsees hlink
    have hapart := separate_at hseparate hne
    refine ⟨hsees.1.elsewhere (fun id hid => hapart.symm.jobs id hid) (fun id hid d hd hcap => ?_) hlink.1, ?_⟩
    · refine Bool.eq_false_of_not_eq_true fun hcovers => ?_
      exact hapart.caps d hcap hd ⟨id, hid, hcovers⟩
    · exact hsees.2.trans (issued_cons_ne hne c m.state m.log).symm
  · -- before the first command
    intro t p hp
    obtain ⟨dag, hdag, rfl⟩ : ∃ dag, dags[t]? = some dag ∧ tick dag = p := by simpa [drivers] using hp
    obtain rfl : dagAt dags t = dag := by rw [dagAt, hdag, Option.getD_some]
    exact ⟨tick (dagAt dags t), (s.retimed (τ t)).start, (seeing_connects w _ _ (τ t)).tick,
      ⟨Sees.start s hgates _ (τ t), rfl⟩, rfl⟩

theorem Sees.same {dag : Dag} {τ : Nat → Nat} {s s' : InProcessScheduler} (h : Sees caps dag τ s s') :
    dag.Same s s' where
  phases _ hid := (h.phase hid).symm
  attempts id hid := (congrArg Prod.fst (h.tally id hid)).symm
  failureHistory id hid := (congrArg Prod.snd (h.tally id hid)).symm
  emitted := h.emitted.symm

/-- **Ticks on graphs of their own do not see each other.** Take any scheduler whose gates look at no jobs but
those of the graph that they are shown, and graphs of which no two share a job or have jobs that one cap
counts. Under every schedule of ticks on these graphs, each tick that has ended was refused nothing, and it has
ended, and has left the jobs of its graph and their events, as if it had run alone, its `n`-th command at the
moment at which it issued it. -/
theorem separate_ticks_serial (w : World) (s : InProcessScheduler)
    (hgates : ∀ kind, ∀ gate ∈ (s.state.gates.get? kind).getD [], gate.Local) {dags : List Dag}
    (hseparate : dags.Pairwise (Dag.Separate s.budget.cap)) (schedule : List Nat) :
    let c := (drivers s dags).run (handle w) schedule
    ∀ t dag p, dags[t]? = some dag → c.threads[t]? = some p → p.ended = true →
      let alone := tickAlone w s (moments (·.time) t c.machine.log) dag
      illegal p = false ∧ SameEnd p alone.1 ∧ dag.Same c.machine.state alone.2.state := by
  intro c t dag p hdag hp hended alone
  obtain ⟨p', m', hrelated, hsees, halone⟩ :=
    drivers_beside w hgates hseparate (fun t => meets_punctual _ t c.machine.log) t p hp
  obtain rfl : dagAt dags t = dag := by rw [dagAt, hdag, Option.getD_some]
  obtain ⟨hsees, -⟩ := hsees
  -- what is left of the tick where it runs alone has ended too
  cases p with
  | call cmd k => cases hended
  | ret receipt =>
    cases p' with
    | ret receipt' =>
      have hend : alone = (.ok receipt', m') := halone.symm
      rw [hend]
      exact ⟨rfl, ⟨hrelated.tickAt.symm, hrelated.transitionsThisTick.symm⟩, hsees.same⟩
    | _ => exact hrelated.elim
  | fail e =>
    cases p' with
    | fail e' =>
      obtain rfl : e' = e := hrelated
      have hend : alone = (.error e', m') := halone.symm
      rw [hend]
      refine ⟨?_, rfl, hsees.same⟩
      have hnot := tick_not_refused (dagAt dags t) _ e' (congrArg Prod.fst hend)
      cases e' with
      | topology cycle => rfl
      | illegalTransition refusal => exact absurd True.intro hnot
    | _ => exact hrelated.elim

namespace Sample

/-- Two ticks that take turns, on a job each. -/
def inTurns : Config schedInterface InProcessScheduler SchedulerError TickReceipt :=
  (drivers roomy [single "a", single "b"]).run (handle world) (List.replicate 30 [0, 1]).flatten

end Sample

theorem cap_roomy (d : Dim) : Sample.roomy.budget.cap d = none := by
  have hcalls : ∀ call ∈ Sample.twoJobs, call.ordinary = true := by decide
  have hstart := (Sequential.start Sample.world (InProcessScheduler.new "t")).step
    (c := .installBudget .new) ⟨rfl, rfl⟩
  have hidle : BudgetTree.new.Idle := fun d => by cases d <;> rfl
  have hcaps : Sample.roomy.budget.cap = BudgetTree.new.cap :=
    (runCalls_withinBudget hcalls hstart ⟨rfl, rfl⟩ (WithinBudget.install hidle "t")).1.caps
  rw [hcaps]
  cases d <;> rfl

theorem gates_roomy (kind : JobKindId) : Sample.roomy.state.gates.get? kind = none := by
  have hnone : Sample.roomy.state.gates.entries.length = 0 := by decide +kernel
  unfold Map.get? AList.lookup
  rw [List.length_eq_zero_iff.mp hnone]
  rfl

theorem separate_ticks_serial_inTurns :
    let alone := tickAlone Sample.world Sample.roomy (moments (·.time) 1 Sample.inTurns.machine.log)
      (Sample.single "b")
    Sample.inTurns.machine.state.phase (Sample.jobId "b") = .succeeded ∧
      (Sample.single "b").Same Sample.inTurns.machine.state alone.2.state := by
  have hseparate : [Sample.single "a", Sample.single "b"].Pairwise (Dag.Separate Sample.roomy.budget.cap) := by
    refine List.pairwise_pair.mpr ⟨by decide +kernel, fun d hd => ?_⟩
    rw [cap_roomy] at hd
    cases hd
  have hphase : Sample.inTurns.machine.state.phase (Sample.jobId "b") = .succeeded := by decide +kernel
  have hended : ∀ p ∈ Sample.inTurns.threads, p.ended = true := by decide +kernel
  obtain ⟨p, hp⟩ : ∃ p, Sample.inTurns.threads[1]? = some p := Option.isSome_iff_exists.mp (by decide +kernel)
  have hgates : ∀ kind, ∀ gate ∈ (Sample.roomy.state.gates.get? kind).getD [], gate.Local := by
    intro kind gate hgate
    rw [gates_roomy] at hgate
    exact absurd hgate List.not_mem_nil
  have hserial := separate_ticks_serial Sample.world Sample.roomy hgates hseparate
    (List.replicate 30 [0, 1]).flatten 1 (Sample.single "b") p rfl
  unfold Sample.inTurns at *
  exact ⟨hphase, (hserial hp (hended p (List.mem_of_getElem? hp))).2.2⟩

end Shigoto
