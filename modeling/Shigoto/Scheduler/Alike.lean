import Shigoto.Atomic.Pairs
import Shigoto.Scheduler.Passes

/-!
# Schedulers that cannot be told apart

A hash map shows its entries in some order, and spawned tasks complete in some order; the worlds of two
runs may choose them differently. `InProcessScheduler.Alike` says that two schedulers differ in such
orders only, and `InStep` that two runs from alike schedulers go through the same events of every job and
end in alike schedulers. Nothing that drives a job looks at an order, so PASS 1 and PASS 3 are in step.
-/

namespace Shigoto

open Atomic

variable {w w' : World} {m m' : SchedMachine} {dag : Dag} {id : JobId}
  {transitions transitions' : List TransitionEvent}

/-! ## Events -/

/-- The same events of every job, in the same order for each. -/
def SameEvents (events events' : List TransitionEvent) : Prop :=
  ∀ id, events'.filter (fun e => e.jobId = id) = events.filter (fun e => e.jobId = id)

namespace SameEvents

variable {events events' events'' new new' : List TransitionEvent}

theorem refl (events : List TransitionEvent) : SameEvents events events := fun _ => rfl

theorem symm (h : SameEvents events events') : SameEvents events' events := fun id => (h id).symm

theorem trans (h : SameEvents events events') (h' : SameEvents events' events'') :
    SameEvents events events'' := fun id => (h' id).trans (h id)

theorem append (h : SameEvents events events') (hnew : SameEvents new new') :
    SameEvents (events ++ new) (events' ++ new') := fun id => by
  rw [List.filter_append, List.filter_append, h id, hnew id]

theorem append_comm {e e' : TransitionEvent} (h : e.jobId ≠ e'.jobId) (events : List TransitionEvent) :
    SameEvents (events ++ [e] ++ [e']) (events ++ [e'] ++ [e]) := by
  rw [List.append_assoc, List.append_assoc]
  refine (refl events).append fun id => ?_
  by_cases he : e.jobId = id
  · subst he
    simp [h.symm]
  · simp [List.filter_cons, he]

/-- Only the order between different jobs can differ. -/
theorem perm (h : SameEvents events events') : events.Perm events' := by
  refine List.perm_iff_count.mpr fun e => ?_
  have hcount : ∀ es : List TransitionEvent,
      es.count e = (es.filter fun e' => e'.jobId = e.jobId).count e := fun es =>
    (List.count_filter (by simp)).symm
  rw [hcount events, hcount events', h e.jobId]

end SameEvents

/-! ## Alike schedulers -/

/-- The two worlds differ at most in the orders that they choose. -/
structure World.SameButOrder (w w' : World) : Prop where
  clock : w'.clock = w.clock
  toposort : w'.toposort = w.toposort
  floatJitter : w'.floatJitter = w.floatJitter

/-- What a scheduler counts and records of the failures of each job. -/
def SchedulerState.tally (state : SchedulerState) (id : JobId) :
    Option UInt32 × Option (List FailureRecord) :=
  (state.attempts.get? id, state.failureHistory.get? id)

/-- The two schedulers hold the same, in whatever order their side maps and logs list it. -/
structure InProcessScheduler.Alike (s s' : InProcessScheduler) : Prop where
  phases : s'.state.phases = s.state.phases
  tally : s'.state.tally = s.state.tally
  setup : s.state.SameSetup s'.state
  budget : s.budget.Alike s'.budget
  tool : s'.tool = s.tool
  emitted : SameEvents s.emitted s'.emitted
  time : s'.time = s.time

namespace InProcessScheduler.Alike

variable {s s' s'' : InProcessScheduler}

theorem refl (s : InProcessScheduler) : s.Alike s := ⟨rfl, rfl, .refl _, .refl _, rfl, .refl _, rfl⟩

theorem symm (h : s.Alike s') : s'.Alike s :=
  ⟨h.phases.symm, h.tally.symm, h.setup.symm, h.budget.symm, h.tool.symm, h.emitted.symm, h.time.symm⟩

theorem trans (h : s.Alike s') (h' : s'.Alike s'') : s.Alike s'' :=
  ⟨h'.phases.trans h.phases, h'.tally.trans h.tally, h.setup.trans h'.setup,
    h.budget.trans h'.budget, h'.tool.trans h.tool, h.emitted.trans h'.emitted, h'.time.trans h.time⟩

theorem attempts (h : s.Alike s') : Map.get? s'.state.attempts = Map.get? s.state.attempts :=
  funext fun id => congrArg Prod.fst (congrFun h.tally id)

theorem failureHistory (h : s.Alike s') :
    Map.get? s'.state.failureHistory = Map.get? s.state.failureHistory :=
  funext fun id => congrArg Prod.snd (congrFun h.tally id)

theorem phase (h : s.Alike s') : s'.phase = s.phase := congrArg phaseIn h.phases

end InProcessScheduler.Alike

/-! ## Commands -/

/-- Commands that look at no order, except for those that apply a result. -/
def Cmd.orderless : Cmd → Bool
  | .now | .seed _ | .phaseOf _ | .readGates _ | .consult _ _ | .dispatch _ _ | .tryAllocate _
  | .readRetry _ | .decide _ _ _ | .runningOf _ | .lookupJob _ | .spawn _ _ _ | .snapshotInner => true
  | _ => false

/-- A command that only asks leaves the schedulers alike, whatever they answer. -/
theorem InProcessScheduler.Alike.asked {s s' : InProcessScheduler} (h : s.Alike s') {c c' : Cmd}
    (hasks : (effect w c s).2 = s) (hasks' : (effect w' c' s').2 = s') :
    (Shigoto.handle w c s).2.Alike (Shigoto.handle w' c' s').2 := by
  unfold Shigoto.handle
  rw [hasks, hasks']
  exact ⟨h.phases, h.tally, h.setup, h.budget, h.tool, h.emitted, congrArg (· + 1) h.time⟩

/-- **Alike schedulers answer alike and stay alike.** -/
theorem InProcessScheduler.Alike.handle {s s' : InProcessScheduler} (h : s.Alike s')
    (hw : w.SameButOrder w') {c : Cmd} (hc : c.orderless = true) :
    (Shigoto.handle w' c s').1 = (Shigoto.handle w c s).1 ∧
      (Shigoto.handle w c s).2.Alike (Shigoto.handle w' c s').2 := by
  have hclock : w'.clock s'.time = w.clock s.time := by rw [hw.clock, h.time]
  have htime : s'.time + 1 = s.time + 1 := congrArg (· + 1) h.time
  have hsetup : ∀ phases phases', { s.state with phases := phases }.SameSetup
      { s'.state with phases := phases' } := fun _ _ =>
    ⟨h.setup.jobs, h.setup.timeouts, h.setup.gates, h.setup.retryPolicies⟩
  cases c with
  | now => exact ⟨hclock, h.asked rfl rfl⟩
  | seed id =>
    exact ⟨rfl, congrArg (seedPhase · id) h.phases, h.tally, hsetup _ _, h.budget, h.tool, h.emitted, htime⟩
  | phaseOf id => exact ⟨congrFun h.phase id, h.asked rfl rfl⟩
  | readGates id =>
    refine ⟨?_, h.asked rfl rfl⟩
    show (_, Snapshot.mk _) = (_, Snapshot.mk _)
    rw [h.setup.gates, h.phases]
  | consult gate ctx => exact ⟨congrArg (gate.evaluate · ctx) h.time, h.asked rfl rfl⟩
  | dispatch id signal =>
    cases hadvance : advance (s.phase id) signal with
    | error e =>
      have hadvance' : advance (s'.phase id) signal = .error e := h.phase ▸ hadvance
      refine ⟨?_, h.asked (by rw [effect_dispatch_error w hadvance])
        (by rw [effect_dispatch_error w' hadvance'])⟩
      simp only [Shigoto.handle, effect_dispatch_error w hadvance, effect_dispatch_error w' hadvance']
    | ok target =>
      have hadvance' : advance (s'.phase id) signal = .ok target := h.phase ▸ hadvance
      -- the same clock, phase and tool give the same event
      have hevent : dispatchEvent w' s' id signal target = dispatchEvent w s id signal target := by
        unfold dispatchEvent
        rw [hclock, h.phase, h.tool]
      rw [answer_dispatch_ok w hadvance, answer_dispatch_ok w' hadvance', hevent]
      refine ⟨rfl, ?_⟩
      simp only [Shigoto.handle, effect_dispatch_ok w hadvance, effect_dispatch_ok w' hadvance', hevent]
      exact ⟨congrArg (·.insert id target) h.phases, h.tally, hsetup _ _, h.budget, h.tool,
        h.emitted.append (.refl _), htime⟩
  | tryAllocate id =>
    obtain ⟨hanswer, hbudget⟩ := h.budget.tryAllocate id
    exact ⟨hanswer, h.phases, h.tally, h.setup, hbudget, h.tool, h.emitted, htime⟩
  | readRetry id =>
    refine ⟨?_, h.asked rfl rfl⟩
    show (_, _, _) = (_, _, _)
    rw [h.setup.retryPolicies, h.attempts, h.failureHistory]
  | decide policy attempt history =>
    refine ⟨?_, h.asked rfl rfl⟩
    show policy.decide w'.floatJitter s'.time attempt history =
      policy.decide w.floatJitter s.time attempt history
    rw [hw.floatJitter, h.time]
  | runningOf wave =>
    refine ⟨?_, h.asked rfl rfl⟩
    show wave.filter _ = wave.filter _
    rw [h.phases]
  | lookupJob id =>
    refine ⟨?_, h.asked rfl rfl⟩
    show (_, _) = (_, _)
    rw [h.setup.jobs, h.setup.timeouts]
  | spawn id job timeout =>
    cases job with
    | none => exact ⟨rfl, h.asked rfl rfl⟩
    | some job =>
      refine ⟨?_, h.asked rfl rfl⟩
      show Task.mk id ((job.execute s'.time).within timeout) =
        Task.mk id ((job.execute s.time).within timeout)
      rw [h.time]
  | snapshotInner =>
    exact ⟨congrArg Snapshot.mk h.phases, h.asked rfl rfl⟩
  | _ => exact Bool.noConfusion hc

/-! ## One step of one job -/

/-- The two runs go through the same events of every job, and end alike. -/
abbrev InStep (w w' : World) (p p' : Sched (List TransitionEvent)) :
    SchedMachine → SchedMachine → Prop :=
  Pairs (handle w) (handle w') 0 p p'
    (fun events events' n n' => SameEvents events events' ∧ n.state.Alike n'.state)
    (fun n n' => n.state.Alike n'.state)

section

variable (hw : w.SameButOrder w')

include hw

/-- A program that looks at no order returns the same. -/
theorem pairs_of_orderless {α : Type} {F : SchedulerError → Prop} {p : Sched α}
    (hp : Issues (fun c => Cmd.orderless c = true) F p) (h : m.state.Alike m'.state) :
    Pairs (handle w) (handle w') 0 p p (fun a a' n n' => a' = a ∧ n.state.Alike n'.state)
      (fun n n' => n.state.Alike n'.state) m m' :=
  hp.pairs (fun _ _ _ h hc => h.handle hw hc) h

theorem inStep_dispatch (h : m.state.Alike m'.state) (hevents : SameEvents transitions transitions')
    (id : JobId) (signal : Signal) :
    InStep w w' (dispatch id signal transitions) (dispatch id signal transitions') m m' := by
  obtain ⟨hanswer, hnext⟩ := h.handle hw (c := .dispatch id signal) rfl
  apply pairs_perform_bind.mpr
  rw [hanswer]
  cases (handle w (.dispatch id signal) m.state).1 with
  | ok event => exact ⟨hevents.append (.refl _), hnext⟩
  | error e => exact pairs_fail hnext

theorem pairs_evaluateGates (h : m.state.Alike m'.state) :
    Pairs (handle w) (handle w') 0 (evaluateGates id dag) (evaluateGates id dag)
      (fun a a' n n' => a' = a ∧ n.state.Alike n'.state)
      (fun n n' => n.state.Alike n'.state) m m' := by
  have hconsult : ∀ ctx gates outcomes,
      Issues (fun c => Cmd.orderless c = true) (fun _ => True) (consultAll ctx gates outcomes) := by
    intro ctx gates
    induction gates with
    | nil => exact fun _ => True.intro
    | cons gate gates ih => exact fun outcomes => Issues.perform_bind rfl fun _ => ih _
  refine pairs_of_orderless hw (F := fun _ => True) ?_ h
  refine Issues.perform_bind rfl ?_
  rintro ⟨gates, snapshot⟩
  exact (hconsult _ gates []).bind fun _ => True.intro

theorem pairs_decideRetry (h : m.state.Alike m'.state) :
    Pairs (handle w) (handle w') 0 (decideRetry id) (decideRetry id)
      (fun a a' n n' => a' = a ∧ n.state.Alike n'.state)
      (fun n n' => n.state.Alike n'.state) m m' := by
  refine pairs_of_orderless hw (F := fun _ => True) ?_ h
  refine Issues.perform_bind rfl ?_
  rintro ⟨policy, attempt, history⟩
  refine Issues.perform_bind rfl fun decision => ?_
  cases decision with
  | deadletter => exact True.intro
  | retry after => exact Issues.perform_bind rfl fun _ => True.intro

theorem pairs_advanceOnce (h : m.state.Alike m'.state) (hevents : SameEvents transitions transitions')
    (source : JobPhase) :
    Pairs (handle w) (handle w') 0 (advanceOnce id source dag transitions)
      (advanceOnce id source dag transitions')
      (fun a a' n n' => a'.1 = a.1 ∧ SameEvents a.2 a'.2 ∧ n.state.Alike n'.state)
      (fun n n' => n.state.Alike n'.state) m m' := by
  -- every branch ends without a signal or with one
  have hstop : ∀ {m m' : SchedMachine}, m.state.Alike m'.state →
      Pairs (handle w) (handle w') 0 (pure (false, transitions) : Sched _) (pure (false, transitions'))
        (fun a a' n n' => a'.1 = a.1 ∧ SameEvents a.2 a'.2 ∧ n.state.Alike n'.state)
        (fun n n' => n.state.Alike n'.state) m m' := fun h => ⟨rfl, hevents, h⟩
  have hsend : ∀ {m m' : SchedMachine} (signal : Signal), m.state.Alike m'.state →
      Pairs (handle w) (handle w') 0
        (dispatch id signal transitions >>= fun transitions => pure (true, transitions))
        (dispatch id signal transitions' >>= fun transitions => pure (true, transitions))
        (fun a a' n n' => a'.1 = a.1 ∧ SameEvents a.2 a'.2 ∧ n.state.Alike n'.state)
        (fun n n' => n.state.Alike n'.state) m m' := fun signal h =>
    pairs_bind (inStep_dispatch hw h hevents id signal) fun _ _ _ _ hnext => ⟨rfl, hnext⟩
  have hgates : ∀ source : JobPhase, Pairs (handle w) (handle w') 0
      (do
        let aggregate ← evaluateGates id dag
        let alreadyGated := source = .gated && aggregate = .someWaiting
        if alreadyGated then return (false, transitions)
        else do
          let transitions ← dispatch id (.evaluateGates aggregate) transitions
          return (true, transitions))
      (do
        let aggregate ← evaluateGates id dag
        let alreadyGated := source = .gated && aggregate = .someWaiting
        if alreadyGated then return (false, transitions')
        else do
          let transitions ← dispatch id (.evaluateGates aggregate) transitions'
          return (true, transitions))
      (fun a a' n n' => a'.1 = a.1 ∧ SameEvents a.2 a'.2 ∧ n.state.Alike n'.state)
      (fun n n' => n.state.Alike n'.state) m m' := by
    intro source
    refine pairs_bind (pairs_evaluateGates hw h) ?_
    rintro aggregate _ n n' ⟨rfl, hnext⟩
    dsimp only
    split
    · exact hstop hnext
    · exact hsend _ hnext
  cases source with
  | pending => exact hgates .pending
  | gated => exact hgates .gated
  | ready =>
    obtain ⟨hanswer, hnext⟩ := h.handle hw (c := .tryAllocate id) rfl
    apply pairs_perform_bind.mpr
    rw [hanswer]
    cases (handle w (.tryAllocate id) m.state).1 with
    | error e => exact hstop hnext
    | ok u => exact hsend _ hnext
  | retrying untilMs =>
    obtain ⟨hanswer, hnext⟩ := h.handle hw (c := .now) rfl
    apply pairs_perform_bind.mpr
    rw [hanswer]
    split
    · exact hstop hnext
    · exact hsend _ hnext
  | failed n =>
    refine pairs_bind (pairs_decideRetry hw h) ?_
    rintro outcome _ n n' ⟨rfl, hnext⟩
    exact hsend _ hnext
  | _ => exact hstop h

/-! ## The passes that drive -/

theorem inStep_drive (h : m.state.Alike m'.state) (hevents : SameEvents transitions transitions')
    (bound : Nat) :
    InStep w w' (drive dag id bound transitions) (drive dag id bound transitions') m m' := by
  induction bound generalizing m m' transitions transitions' with
  | zero => exact ⟨hevents, h⟩
  | succ bound ih =>
    obtain ⟨hanswer, hnext⟩ := h.handle hw (c := .phaseOf id) rfl
    apply pairs_perform_bind.mpr
    rw [hanswer]
    split
    · exact ⟨hevents, hnext⟩
    · refine pairs_bind (pairs_advanceOnce hw hnext hevents _) ?_
      rintro ⟨progressed, events⟩ ⟨_, events'⟩ n n' ⟨rfl, hevents₁, hnext₁⟩
      dsimp only
      split
      · exact ih hnext₁ hevents₁
      · exact ⟨hevents₁, hnext₁⟩

theorem inStep_pass1 (wave : List JobId) (h : m.state.Alike m'.state)
    (hevents : SameEvents transitions transitions') :
    InStep w w' (pass1 dag wave transitions) (pass1 dag wave transitions') m m' := by
  induction wave generalizing m m' transitions transitions' with
  | nil => exact ⟨hevents, h⟩
  | cons id wave ih =>
    apply pairs_perform_bind.mpr
    refine pairs_bind (inStep_drive hw (h.handle hw (c := .seed id) rfl).2 hevents 6) ?_
    rintro events events' n n' ⟨hevents₁, hnext⟩
    exact ih hnext hevents₁

theorem inStep_pass3 (wave : List JobId) (h : m.state.Alike m'.state)
    (hevents : SameEvents transitions transitions') :
    InStep w w' (pass3 dag wave transitions) (pass3 dag wave transitions') m m' := by
  induction wave generalizing m m' transitions transitions' with
  | nil => exact ⟨hevents, h⟩
  | cons id wave ih =>
    refine pairs_bind (inStep_drive hw h hevents 3) ?_
    rintro events events' n n' ⟨hevents₁, hnext⟩
    exact ih hnext hevents₁

end

end Shigoto
