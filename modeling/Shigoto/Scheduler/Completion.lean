import Shigoto.Scheduler.Alike
import Shigoto.Scheduler.Legality
import Shigoto.Scheduler.Plain
import Shigoto.Scheduler.Unhealed

/-!
# The order in which tasks complete

The results of a wave are applied one by one, in the order in which its tasks complete.
`InProcessScheduler.applyResult` is what one result does to the scheduler; under a clock that stands still
it depends on nothing that the results of other jobs change, so results commute (`applyResult_comm`). PASS 2
therefore ends alike whatever the order is, and PASS 3 and the later waves start from alike schedulers.
-/

namespace Shigoto

open Atomic

variable {w w' : World} {m m' : SchedMachine} {dag : Dag} {now : DateTime}
  {transitions transitions' : List TransitionEvent} {results results' : List (JobId × ExecResult)}
  {s s' : InProcessScheduler} {id : JobId}

/-! ## Applying one result -/

/-- The signal that an applied result sends. -/
def ExecResult.signal : ExecResult → Signal
  | .ok () => .executionSucceeded
  | .error () => .executionFailed

/-- The event that an applied result emits. -/
def resultEvent (now : DateTime) (tool : String) (x : JobId × ExecResult) : TransitionEvent where
  time := now
  jobId := x.1
  source := .running
  target := ExecResult.phase x.2
  reason := reasonFrom (ExecResult.signal x.2)
  tool := tool

/-- What a result does to the attempts and the history of its job. -/
def ExecResult.count (now : DateTime) : ExecResult →
    Option UInt32 × Option (List FailureRecord) → Option UInt32 × Option (List FailureRecord)
  | .ok (), _ => (none, none)
  | .error (), (attempts, history) =>
    (some (attempts.getD 0 + 1),
      some (capHistory (history.getD [] ++
        [.new (attempts.getD 0 + 1) now "execute() returned Err"])))

/-- What the result of a Running job does to phases, attempts and histories. -/
def SchedulerState.applyResult (now : DateTime) (state : SchedulerState) :
    JobId × ExecResult → SchedulerState
  | (id, .ok ()) =>
    { state with
      phases := state.phases.replace id .succeeded
      attempts := state.attempts.erase id
      failureHistory := state.failureHistory.erase id }
  | (id, .error ()) =>
    { state.recordFailure id now with phases := state.phases.replace id (.failed 1) }

/-- What applying a result does: three commands, one event, and one slot given back. -/
def InProcessScheduler.applyResult (now : DateTime) (s : InProcessScheduler)
    (x : JobId × ExecResult) : InProcessScheduler where
  state := s.state.applyResult now x
  budget := s.budget.release x.1
  tool := s.tool
  emitted := s.emitted ++ [resultEvent now s.tool x]
  time := s.time + 1 + 1 + 1

theorem phases_applyResult (now : DateTime) (state : SchedulerState) (x : JobId × ExecResult) :
    (state.applyResult now x).phases = state.phases.replace x.1 (ExecResult.phase x.2) := by
  obtain ⟨id, ⟨⟩ | ⟨⟩⟩ := x <;> rfl

theorem tally_applyResult (now : DateTime) (state : SchedulerState) (x : JobId × ExecResult) :
    (state.applyResult now x).tally = modifyAt state.tally x.1 (ExecResult.count now x.2) := by
  obtain ⟨id, result⟩ := x
  funext id'
  rw [modifyAt_apply]
  cases result with
  | ok u =>
    show (Map.get? (state.attempts.erase id) id', Map.get? (state.failureHistory.erase id) id') = _
    rw [Map.get?_erase, Map.get?_erase]
    split <;> rfl
  | error u =>
    show (Map.get? (state.attempts.insert id _) id',
      Map.get? (state.failureHistory.insert id _) id') = _
    rw [Map.get?_insert, Map.get?_insert]
    split <;> rfl

theorem sameSetup_applyResult (now : DateTime) (state : SchedulerState) (x : JobId × ExecResult) :
    state.SameSetup (state.applyResult now x) := by
  obtain ⟨id, ⟨⟩ | ⟨⟩⟩ := x <;> exact ⟨rfl, rfl, rfl, rfl⟩

theorem InProcessScheduler.Alike.applyResult (h : s.Alike s') (x : JobId × ExecResult) :
    (s.applyResult now x).Alike (s'.applyResult now x) where
  phases := by
    show (s'.state.applyResult now x).phases = (s.state.applyResult now x).phases
    rw [phases_applyResult, phases_applyResult, h.phases]
  tally := by
    show (s'.state.applyResult now x).tally = (s.state.applyResult now x).tally
    rw [tally_applyResult, tally_applyResult, h.tally]
  setup := ((sameSetup_applyResult now s.state x).symm.trans h.setup).trans
    (sameSetup_applyResult now s'.state x)
  budget := h.budget.release x.1
  tool := h.tool
  emitted := by
    show SameEvents (s.emitted ++ [resultEvent now s.tool x])
      (s'.emitted ++ [resultEvent now s'.tool x])
    rw [h.tool]
    exact h.emitted.append (.refl _)
  time := congrArg (· + 1 + 1 + 1) h.time

/-- **Results of different jobs commute.** -/
theorem applyResult_comm (s : InProcessScheduler) {x y : JobId × ExecResult} (hne : x.1 ≠ y.1) :
    ((s.applyResult now x).applyResult now y).Alike ((s.applyResult now y).applyResult now x) where
  phases := by
    show ((s.state.applyResult now y).applyResult now x).phases =
      ((s.state.applyResult now x).applyResult now y).phases
    simp only [phases_applyResult]
    exact Map.replace_comm _ hne.symm _ _
  tally := by
    show ((s.state.applyResult now y).applyResult now x).tally =
      ((s.state.applyResult now x).applyResult now y).tally
    simp only [tally_applyResult]
    exact modifyAt_comm _ fun heq => absurd heq.symm hne
  setup := ((sameSetup_applyResult now s.state x).trans (sameSetup_applyResult now _ y)).symm.trans
    ((sameSetup_applyResult now s.state y).trans (sameSetup_applyResult now _ x))
  budget := s.budget.release_comm x.1 y.1
  tool := rfl
  emitted := SameEvents.append_comm hne s.emitted
  time := rfl

/-! ## PASS 2 -/

/-- A Running job has its entry, so that storing its phase overwrites it. -/
theorem applyResult_of_running (hrunning : s.phase id = .running) (result : ExecResult) :
    s.applyResult now (id, result) = { s.applyResult now (id, result) with
      state.phases := s.state.phases.insert id (ExecResult.phase result) } := by
  have hstored : s.state.phases.get? id = some .running := get?_of_phaseIn hrunning (by decide)
  have hmem : id ∈ s.state.phases := Map.mem_iff.mpr (hstored ▸ rfl)
  rw [Map.insert_of_mem hmem]
  cases result <;> rfl

/-- **Applying a result to a Running job.** -/
theorem wp_applyExecutionResult_eq (hclock : ∀ t, w.clock t = now) {result : ExecResult}
    (hrunning : m.state.phase id = .running) :
    wp (handle w) 0 (applyExecutionResult id result transitions)
      (fun transitions' m' =>
        transitions' = transitions ++ [resultEvent now m.state.tool (id, result)] ∧
        m'.state = m.state.applyResult now (id, result))
      (fun _ _ => False) m := by
  cases result with
  | ok u =>
    have hadvance : advance (m.state.phase id) .executionSucceeded = .ok .succeeded :=
      advance_executionSucceeded_iff.mpr ⟨hrunning, rfl⟩
    have hevent : dispatchEvent w m.state id .executionSucceeded .succeeded =
        resultEvent now m.state.tool (id, .ok u) := by
      rw [dispatchEvent, hclock, hrunning]
      rfl
    apply wp_bind.mpr
    apply (wp_dispatch hadvance).mpr
    rw [hevent]
    refine ⟨rfl, ?_⟩
    simp only [Machine.step, handle, effect_dispatch_ok w hadvance, hevent]
    rw [applyResult_of_running hrunning]
    rfl
  | error u =>
    set m₀ := m.step (handle w) 0 (.recordFailure id) with hm₀
    have hrecorded : m₀.state = { m.state with
        state := m.state.state.recordFailure id now
        time := m.state.time + 1 } := by
      rw [← hclock m.state.time]
      rfl
    have hadvance : advance (m₀.state.phase id) .executionFailed = .ok (.failed 1) :=
      advance_executionFailed_iff.mpr ⟨hrunning, rfl⟩
    have hevent : dispatchEvent w m₀.state id .executionFailed (.failed 1) =
        resultEvent now m.state.tool (id, .error u) := by
      rw [dispatchEvent, hclock, show m₀.state.phase id = .running from hrunning]
      rfl
    apply wp_perform_bind.mpr
    apply wp_bind.mpr
    apply (wp_dispatch hadvance).mpr
    rw [hevent]
    refine ⟨rfl, ?_⟩
    simp only [Machine.step, handle, effect_dispatch_ok w hadvance, hevent]
    rw [hrecorded, applyResult_of_running hrunning]
    rfl

theorem phase_applyResult (s : InProcessScheduler) {x : JobId × ExecResult} (hid : id ≠ x.1) :
    (s.applyResult now x).phase id = s.phase id := by
  show ((s.state.applyResult now x).phases.get? id).getD .pending = _
  rw [phases_applyResult, Map.get?_replace, if_neg hid]
  rfl

/-- Applying the results of different Running jobs, one by one. -/
theorem wp_applyAll_eq (hclock : ∀ t, w.clock t = now) (hnodup : (results.map (·.1)).Nodup)
    (hrunning : ∀ id ∈ results.map (·.1), m.state.phase id = .running) :
    wp (handle w) 0 (applyAll results transitions)
      (fun transitions' m' =>
        transitions' = transitions ++ results.map (resultEvent now m.state.tool) ∧
        m'.state = results.foldl (InProcessScheduler.applyResult now) m.state)
      (fun _ _ => False) m := by
  induction results generalizing m transitions with
  | nil => exact ⟨(List.append_nil _).symm, rfl⟩
  | cons x results ih =>
    obtain ⟨id, result⟩ := x
    obtain ⟨hnew, hrest⟩ := List.nodup_cons.mp hnodup
    apply wp_bind.mpr
    refine wp_mono (wp_applyExecutionResult_eq hclock (hrunning id List.mem_cons_self)) ?_
      fun _ _ he => he
    rintro _ m₁ ⟨rfl, hm₁⟩
    have hstill : ∀ id' ∈ results.map (·.1), m₁.state.phase id' = .running := by
      intro id' hid'
      have hne : id' ≠ id := fun heq => hnew (heq ▸ hid')
      rw [hm₁, phase_applyResult m.state hne]
      exact hrunning id' (List.mem_cons_of_mem id hid')
    refine wp_mono (ih hrest hstill) ?_ fun _ _ he => he
    rintro _ m₂ ⟨rfl, hm₂⟩
    rw [hm₁] at hm₂ ⊢
    exact ⟨List.append_assoc _ _ _, hm₂⟩

theorem SameEvents.of_perm {events events' : List TransitionEvent} (hperm : events.Perm events')
    (hnodup : (events.map (·.jobId)).Nodup) : SameEvents events events' := by
  induction hperm with
  | nil => exact .refl []
  | cons e _ ih => exact (SameEvents.refl [e]).append (ih (List.nodup_cons.mp hnodup).2)
  | swap e e' events =>
    have hne : e'.jobId ≠ e.jobId := fun heq =>
      (List.nodup_cons.mp hnodup).1 (List.mem_cons.mpr (.inl heq))
    exact (SameEvents.append_comm hne []).append (.refl events)
  | trans hfirst _ ih ih' => exact (ih hnodup).trans (ih' ((hfirst.map _).nodup_iff.mp hnodup))

/-- **The order in which results are applied does not matter.** -/
theorem foldl_applyResult_perm (hperm : results.Perm results') (hnodup : (results.map (·.1)).Nodup)
    (h : s.Alike s') : (results.foldl (InProcessScheduler.applyResult now) s).Alike
      (results'.foldl (InProcessScheduler.applyResult now) s') :=
  foldl_perm (R := InProcessScheduler.Alike) (D := fun x y => x.1 ≠ y.1) ⟨.refl, .symm, .trans⟩
    (fun x hs => hs.applyResult x) (fun s _ _ hne => applyResult_comm s hne) (fun _ _ hne => hne.symm)
    hperm (List.pairwise_map.mp hnodup) h

section

variable (hw : w.SameButOrder w')

include hw

theorem inStep_applyAll (hclock : ∀ t, w.clock t = now) (hperm : results.Perm results')
    (hnodup : (results.map (·.1)).Nodup)
    (hrunning : ∀ id ∈ results.map (·.1), m.state.phase id = .running)
    (h : m.state.Alike m'.state) (hevents : SameEvents transitions transitions') :
    InStep w w' (applyAll results transitions) (applyAll results' transitions') m m' := by
  have hperm' := hperm.map (·.1)
  refine pairs_of_wp (wp_applyAll_eq hclock hnodup hrunning)
    (wp_applyAll_eq (fun t => (congrFun hw.clock t).trans (hclock t)) (hperm'.nodup_iff.mp hnodup)
      fun id hid => (congrFun h.phase id).trans (hrunning id (hperm'.mem_iff.mpr hid))) ?_
  rintro _ n _ n' ⟨rfl, hn⟩ ⟨rfl, hn'⟩
  constructor
  · rw [h.tool]
    refine hevents.append (.of_perm (hperm.map _) ?_)
    rw [List.map_map]
    exact hnodup
  · rw [hn, hn']
    exact foldl_applyResult_perm hperm hnodup h

/-- Both runs execute the same tasks, and the results differ in their order only. -/
theorem pairs_executeConcurrent {ids : List JobId} (hnodup : ids.Nodup)
    (hrunning : ∀ id ∈ ids, m.state.phase id = .running) (h : m.state.Alike m'.state) :
    Pairs (handle w) (handle w') 0 (executeConcurrent ids) (executeConcurrent ids)
      (fun results results' n n' => results.Perm results' ∧ (results.map (·.1)).Nodup ∧
        (∀ id ∈ results.map (·.1), n.state.phase id = .running) ∧ n.state.Alike n'.state)
      (fun n n' => n.state.Alike n'.state) m m' := by
  have hspawn : ∀ tasks,
      Issues (fun c => Cmd.orderless c = true) (fun _ => True) (spawnAll ids tasks) := by
    clear hnodup hrunning
    induction ids with
    | nil => exact fun _ => True.intro
    | cons id ids ih =>
      intro tasks
      refine Issues.perform_bind rfl ?_
      rintro ⟨job, timeout⟩
      exact Issues.perform_bind rfl fun task => ih _
  have hpairs : Pairs (handle w) (handle w') 0 (executeConcurrent ids) (executeConcurrent ids)
      (fun results results' n n' => results.Perm results' ∧ n.state.Alike n'.state)
      (fun n n' => n.state.Alike n'.state) m m' := by
    refine pairs_bind (pairs_of_orderless hw (hspawn []) h) ?_
    rintro tasks _ n n' ⟨rfl, hnext⟩
    exact ⟨(answers_handle w (fun _ => True) (.join _) n.state).trans
      (answers_handle w' (fun _ => True) (.join _) n'.state).symm, hnext.asked rfl rfl⟩
  refine pairs_mono (pairs_and_wp hpairs (wp_executeConcurrent ids)) ?_
  rintro results results' n n' ⟨⟨hperm, hnext⟩, tasks, hjoined⟩
  exact ⟨hperm, hjoined.nodup hnodup, hjoined.running hrunning, hnext⟩

/-- **PASS 2 ends alike, in whatever order its tasks complete.** -/
theorem inStep_pass2 (hclock : ∀ t, w.clock t = now) {wave : List JobId} (hnodup : wave.Nodup)
    (h : m.state.Alike m'.state) (hevents : SameEvents transitions transitions') :
    InStep w w' (pass2 wave transitions) (pass2 wave transitions') m m' := by
  obtain ⟨hanswer, hnext⟩ := h.handle hw (c := .runningOf wave) rfl
  apply pairs_perform_bind.mpr
  rw [hanswer]
  split
  · exact ⟨hevents, hnext⟩
  · refine pairs_bind (pairs_executeConcurrent hw (hnodup.filter _) (fun id hid => ?_) hnext) ?_
    · exact (InProcessScheduler.mem_runningOf.mp hid).2
    · rintro results results' n n' ⟨hperm, hresults, hrunning, hnext₁⟩
      exact inStep_applyAll hw hclock hperm hresults hrunning hnext₁ hevents

/-! ## The tick -/

theorem inStep_runWaves (hclock : ∀ t, w.clock t = now) {waves : List (List JobId)}
    (hnodup : ∀ wave ∈ waves, wave.Nodup) (h : m.state.Alike m'.state)
    (hevents : SameEvents transitions transitions') :
    InStep w w' (runWaves dag waves transitions) (runWaves dag waves transitions') m m' := by
  induction waves generalizing m m' transitions transitions' with
  | nil => exact ⟨hevents, h⟩
  | cons wave waves ih =>
    obtain ⟨hwave, hrest⟩ := List.forall_mem_cons.mp hnodup
    refine pairs_bind (inStep_pass1 hw wave h hevents) ?_
    rintro events₁ events₁' n₁ n₁' ⟨hevents₁, hnext₁⟩
    refine pairs_bind (inStep_pass2 hw hclock hwave hnext₁ hevents₁) ?_
    rintro events₂ events₂' n₂ n₂' ⟨hevents₂, hnext₂⟩
    refine pairs_bind (inStep_pass3 hw wave hnext₂ hevents₂) ?_
    rintro events₃ events₃' n₃ n₃' ⟨hevents₃, hnext₃⟩
    exact ih hrest hnext₃ hevents₃

/-- The receipts report the same. -/
structure TickReceipt.Alike (receipt receipt' : TickReceipt) : Prop where
  tickAt : receipt'.tickAt = receipt.tickAt
  phaseCounts : receipt'.phaseCounts = receipt.phaseCounts
  transitions : SameEvents receipt.transitionsThisTick receipt'.transitionsThisTick
  unhealed : receipt.unhealed.Perm receipt'.unhealed

theorem pairs_tick (dag : Dag) (m m' : SchedMachine) (hclock : ∀ t, w.clock t = now)
    (horder : w'.order (m.state.time + 1) = w.order (m.state.time + 1))
    (h : m.state.Alike m'.state) :
    Pairs (handle w) (handle w') 0 (tick dag) (tick dag)
      (fun receipt receipt' n n' => receipt.Alike receipt' ∧ n.state.Alike n'.state)
      (fun n n' => n.state.Alike n'.state) m m' := by
  obtain ⟨hnow, hstarted⟩ := h.handle hw (c := .now) rfl
  apply pairs_perform_bind.mpr
  rw [hnow]
  apply pairs_perform_bind.mpr
  set m₁ := m.step (handle w) 0 .now with hm₁
  set m₁' := m'.step (handle w') 0 .now with hm₁'
  have hanswer : (handle w' (.waves dag) m₁'.state).1 = (handle w (.waves dag) m₁.state).1 := by
    show dag.waves w'.toposort (w'.order (m'.state.time + 1)) none =
      dag.waves w.toposort (w.order (m.state.time + 1)) none
    rw [hw.toposort, h.time, horder]
  have hsorted : (m₁.step (handle w) 0 (.waves dag)).state.Alike
      (m₁'.step (handle w') 0 (.waves dag)).state := hstarted.asked rfl rfl
  have hnodup := answers_handle w (fun _ => True) (.waves dag) m₁.state
  rw [hanswer]
  cases hwaves : (handle w (.waves dag) m₁.state).1 with
  | error e => exact pairs_fail hsorted
  | ok waves =>
    have hwave : ∀ wave ∈ waves, wave.Nodup := (List.nodup_flatten.mp (hnodup waves hwaves)).1
    refine pairs_bind (inStep_runWaves hw hclock hwave hsorted (.refl [])) ?_
    rintro events events' n n' ⟨hevents, hend⟩
    have hread : (n.step (handle w) 0 .snapshotInner).state.Alike
        (n'.step (handle w') 0 .snapshotInner).state := hend.asked rfl rfl
    refine ⟨⟨rfl, congrArg (fun phases => (Snapshot.mk phases).phaseCounts) hend.phases, hevents, ?_⟩,
      hread.asked rfl rfl⟩
    show (collectUnhealed _ _ n.state.state.phases).Perm (collectUnhealed _ _ n'.state.state.phases)
    rw [hend.phases]
    exact collectUnhealed_perm rfl

end

/-! ## The result -/

/-- Awaiting the tasks of a wave. -/
def Cmd.joins : Cmd → Bool
  | .join _ => true
  | _ => false

/-- The two worlds differ in the orders in which spawned tasks complete, and in nothing else that a run
asks of them. -/
structure World.SameButCompletion (w w' : World) (log : List SchedEvent) : Prop
    extends w.SameButOrder w' where
  order : ∀ e ∈ log, e.cmd.joins = false → w'.order e.pre.time = w.order e.pre.time

/-- **Completion order does not matter.** From any state of the scheduler, on any graph, with any gates and
a clock that stands still: two ticks that differ only in the order in which the
tasks of each wave complete leave the same phases, attempts, histories and counters, and report the same
counts, the same unhealed jobs and the same events of every job. Both fail only if the graph cannot be
sorted. -/
theorem completion_order_irrelevant (w w' : World) (hclock : ∀ t t', w.clock t = w.clock t')
    (s : InProcessScheduler) (dag : Dag) :
    let run := (tick dag).exec (handle w) 0 s.start
    let run' := (tick dag).exec (handle w') 0 s.start
    w.SameButCompletion w' run.2.log →
    run.2.state.Alike run'.2.state ∧
    ((∃ receipt receipt', run.1 = .ok receipt ∧ run'.1 = .ok receipt' ∧ receipt.Alike receipt' ∧
      receipt.transitionsThisTick.Perm receipt'.transitionsThisTick) ∨
      ∃ e, run.1 = .error e ∧ run'.1 = .error e ∧ ∃ i, w.toposort dag.graph = .error i) := by
  intro run run' hw
  have hasked : ⟨0, .waves dag, (handle w .now s).2⟩ ∈ run.2.log :=
    (exec_suffix _ ((s.start.step (handle w) 0 .now).step (handle w) 0 (.waves dag))).subset
      List.mem_cons_self
  have hpairs := pairs_tick hw.toSameButOrder dag s.start s.start (fun t => hclock t 0)
    (hw.order _ hasked rfl) (.refl s)
  unfold Pairs at hpairs
  split at hpairs
  · next receipt n receipt' n' hend hend' =>
    obtain ⟨hreceipt, hstate⟩ := hpairs
    refine ⟨?_, .inl ⟨receipt, receipt', congrArg Prod.fst hend, congrArg Prod.fst hend', hreceipt,
      hreceipt.transitions.perm⟩⟩
    rw [show run.2 = n from congrArg Prod.snd hend, show run'.2 = n' from congrArg Prod.snd hend']
    exact hstate
  · next e n e' n' hend hend' =>
    obtain ⟨hsame, hstate⟩ := hpairs
    rw [hsame] at hend'
    refine ⟨?_, .inr ⟨e, congrArg Prod.fst hend, congrArg Prod.fst hend', ?_⟩⟩
    · rw [show run.2 = n from congrArg Prod.snd hend, show run'.2 = n' from congrArg Prod.snd hend']
      exact hstate
    · exact unsorted_of_error (congrArg Prod.fst hend)
  · exact hpairs.elim

/-- A world in which job `a` completes last, when the tasks are awaited at this moment. -/
def Sample.lateWorld (moment : Nat) : World :=
  { Sample.agedWorld with
    order := fun time id => if time = moment ∧ id = Sample.jobId "a" then 1 else 0 }

/-- One of two jobs succeeds and the other fails. Which of them completes first shows in the order of the
events, and nowhere else. -/
theorem completion_order_irrelevant_pair :
    let s := (runCalls Sample.agedWorld Sample.okAndErr (InProcessScheduler.new "t").start).state
    let run := (tick Sample.pair).exec (handle Sample.agedWorld) 0 s.start
    let run' := (tick Sample.pair).exec (handle (Sample.lateWorld 25)) 0 s.start
    run.2.state.Alike run'.2.state ∧
      run.2.state.emitted.map (·.jobId) ≠ run'.2.state.emitted.map (·.jobId) := by
  intro s
  have hmain := completion_order_irrelevant Sample.agedWorld (Sample.lateWorld 25) (fun _ _ => rfl) s
    Sample.pair
  have hjoin : ∀ e ∈ ((tick Sample.pair).exec (handle Sample.agedWorld) 0 s.start).2.log,
      e.cmd.joins = false → e.pre.time ≠ 25 := by decide +kernel
  have hswapped :
      ((tick Sample.pair).exec (handle Sample.agedWorld) 0 s.start).2.state.emitted.map (·.jobId) ≠
        ((tick Sample.pair).exec (handle (Sample.lateWorld 25)) 0 s.start).2.state.emitted.map
          (·.jobId) := by decide +kernel
  generalize (tick Sample.pair).exec (handle Sample.agedWorld) 0 s.start = run at *
  generalize (tick Sample.pair).exec (handle (Sample.lateWorld 25)) 0 s.start = run' at *
  have hw : Sample.agedWorld.SameButCompletion (Sample.lateWorld 25) run.2.log := by
    refine ⟨⟨rfl, rfl, rfl⟩, fun e he hother => funext fun id => ?_⟩
    exact if_neg fun hlate => hjoin e he hother hlate.1
  exact ⟨(hmain hw).1, hswapped⟩

end Shigoto
