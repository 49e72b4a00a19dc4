import Shigoto.Scheduler.EdgeOrder
import Shigoto.Scheduler.Plain
import Shigoto.Waves

/-!
# A tick without constraints

With no gates, no policies and no caps, one tick takes every job of the graph from Pending to its end:
PASS 1 of its wave starts it, as its predecessors were in earlier waves, PASS 2 executes it, and PASS 3
gives it up if it failed. `Swept` says of a pass, of a wave and of the whole tick which path each job
took; it composes along the passes (`Swept.append`) and along the waves (`Swept.union`).
-/

namespace Shigoto

open Atomic

variable {w : World} {m m₁ m₂ : SchedMachine} {dag : Dag} {transitions transitions₁ transitions₂ :
  List TransitionEvent} {ids ids' : List JobId} {path path' : JobId → List JobPhase}

/-! ## Sweeps -/

/-- Each job of `ids` went along its path, and no other job moved. -/
structure Swept (ids : List JobId) (path : JobId → List JobPhase) (m : SchedMachine)
    (transitions : List TransitionEvent) (m' : SchedMachine) (transitions' : List TransitionEvent) :
    Prop where
  phase : ∀ id, m'.state.phase id =
    if id ∈ ids then (path id).getLastD (m.state.phase id) else m.state.phase id
  setup : m.state.state.SameSetup m'.state.state
  caps : m'.state.budget.cap = m.state.budget.cap
  steps : ∃ new, transitions' = transitions ++ new ∧ ∀ id, stepsOf id (new.map TransitionEvent.step) =
    if id ∈ ids then pathSteps (m.state.phase id) (path id) else []

namespace Swept

theorem phase_of_mem (h : Swept ids path m transitions m₁ transitions₁) {id : JobId} (hid : id ∈ ids) :
    m₁.state.phase id = (path id).getLastD (m.state.phase id) := (h.phase id).trans (if_pos hid)

theorem phase_of_not_mem (h : Swept ids path m transitions m₁ transitions₁) {id : JobId}
    (hid : id ∉ ids) : m₁.state.phase id = m.state.phase id := (h.phase id).trans (if_neg hid)

theorem nil (m : SchedMachine) (transitions : List TransitionEvent) :
    Swept [] path m transitions m transitions :=
  ⟨fun _ => rfl, .refl _, rfl, [], (List.append_nil _).symm, fun _ => rfl⟩

theorem congr (h : Swept ids path m transitions m₁ transitions₁)
    (hpath : ∀ id ∈ ids, path id = path' id) :
    Swept ids path' m transitions m₁ transitions₁ := by
  refine ⟨fun id => ?_, h.setup, h.caps, ?_⟩
  · by_cases hid : id ∈ ids
    · rw [h.phase_of_mem hid, if_pos hid, hpath id hid]
    · rw [h.phase_of_not_mem hid, if_neg hid]
  · obtain ⟨new, rfl, hsteps⟩ := h.steps
    refine ⟨new, rfl, fun id => (hsteps id).trans ?_⟩
    by_cases hid : id ∈ ids
    · rw [if_pos hid, if_pos hid, hpath id hid]
    · rw [if_neg hid, if_neg hid]

theorem of_driven {id : JobId} {along : List JobPhase}
    (h : DrivenAlong id transitions (m.state.phase id) along m transitions₁ m₁) :
    Swept [id] (fun _ => along) m transitions m₁ transitions₁ := by
  obtain ⟨hwalked, new, rfl, hnew⟩ := h
  refine ⟨fun id' => ?_, hwalked.setup, ?_, new, rfl, fun id' => ?_⟩
  · by_cases hid : id' = id
    · rw [hid, if_pos (List.mem_singleton_self id), hwalked.phase_self]
    · rw [if_neg (by simpa using hid), hwalked.phase_ne hid]
  · rw [hwalked.budget]
    split
    · exact BudgetTree.cap_tryAllocate _ _
    · rfl
  · rw [hnew, stepsOf_stepsAlong]
    by_cases hid : id' = id
    · rw [if_pos hid, if_pos (by simpa using hid), hid]
    · rw [if_neg hid, if_neg (by simpa using hid)]

/-- One sweep after another of the same jobs. -/
theorem append (h : Swept ids path m transitions m₁ transitions₁)
    (h' : Swept ids path' m₁ transitions₁ m₂ transitions₂) :
    Swept ids (fun id => path id ++ path' id) m transitions m₂ transitions₂ := by
  obtain ⟨new, rfl, hnew⟩ := h.steps
  obtain ⟨new', rfl, hnew'⟩ := h'.steps
  refine ⟨fun id => ?_, h.setup.trans h'.setup, h'.caps.trans h.caps, new ++ new', by simp, fun id => ?_⟩
  · by_cases hid : id ∈ ids
    · rw [h'.phase_of_mem hid, h.phase_of_mem hid, if_pos hid, getLastD_append]
    · rw [h'.phase_of_not_mem hid, h.phase_of_not_mem hid, if_neg hid]
  · rw [List.map_append, stepsOf_append, hnew, hnew']
    by_cases hid : id ∈ ids
    · rw [if_pos hid, if_pos hid, if_pos hid, pathSteps_append, h.phase_of_mem hid]
    · rw [if_neg hid, if_neg hid, if_neg hid]
      rfl

/-- One sweep after another of different jobs. -/
theorem union (h : Swept ids path m transitions m₁ transitions₁)
    (h' : Swept ids' path m₁ transitions₁ m₂ transitions₂) (hdisjoint : ids.Disjoint ids') :
    Swept (ids ++ ids') path m transitions m₂ transitions₂ := by
  obtain ⟨new, rfl, hnew⟩ := h.steps
  obtain ⟨new', rfl, hnew'⟩ := h'.steps
  refine ⟨fun id => ?_, h.setup.trans h'.setup, h'.caps.trans h.caps, new ++ new', by simp, fun id => ?_⟩
  · by_cases hid : id ∈ ids
    · rw [h'.phase_of_not_mem (hdisjoint hid), h.phase_of_mem hid, if_pos (List.mem_append_left _ hid)]
    · by_cases hid' : id ∈ ids'
      · rw [h'.phase_of_mem hid', h.phase_of_not_mem hid, if_pos (List.mem_append_right _ hid')]
      · rw [h'.phase_of_not_mem hid', h.phase_of_not_mem hid, if_neg (by simp [hid, hid'])]
  · rw [List.map_append, stepsOf_append, hnew, hnew']
    by_cases hid : id ∈ ids
    · rw [if_pos hid, if_neg (hdisjoint hid), if_pos (List.mem_append_left _ hid), List.append_nil]
    · rw [if_neg hid, List.nil_append, h.phase_of_not_mem hid]
      by_cases hid' : id ∈ ids'
      · rw [if_pos hid', if_pos (List.mem_append_right _ hid')]
      · rw [if_neg hid', if_neg (by simp [hid, hid'])]

end Swept

/-! ## The passes of a wave -/

variable {verdict : JobId → ExecResult} {wave : List JobId}

/-- What PASS 3 does to a job that was executed. -/
def ExecResult.cleanup : ExecResult → List JobPhase
  | .ok _ => []
  | .error _ => [.deadlettered]

theorem settle_phase (supported slack : Bool) (result : ExecResult) :
    settle supported slack 3 (ExecResult.phase result) = ExecResult.cleanup result := by
  cases result <;> rfl

/-- **PASS 1 starts every job** of a wave whose predecessors are all terminal. -/
theorem wp_pass1_sweep (hnodup : wave.Nodup) (hplain : m.state.state.Plain)
    (huncapped : ∀ d, m.state.budget.cap d = none)
    (hready : ∀ id ∈ wave, m.state.phase id = .pending ∧ Supported dag m.state id) :
    wp (handle w) 0 (pass1 dag wave transitions)
      (fun transitions' m' => Swept wave (fun _ => [.ready, .running]) m transitions m' transitions')
      (fun _ _ => False) m := by
  induction wave generalizing m transitions with
  | nil => exact .nil m transitions
  | cons id wave ih =>
    obtain ⟨hid, hnodup⟩ := List.nodup_cons.mp hnodup
    obtain ⟨⟨hpending, hsupported⟩, hrest⟩ := List.forall_mem_cons.mp hready
    apply wp_perform_bind.mpr
    set m₁ := m.step (handle w) 0 (.seed id) with hm₁
    have hphase₁ : ∀ id', m₁.state.phase id' = m.state.phase id' :=
      phaseIn_seedPhase m.state.state.phases id
    have hseeded : Swept [] (fun _ => [.ready, .running]) m transitions m₁ transitions :=
      ⟨hphase₁, ⟨rfl, rfl, rfl, rfl⟩, rfl, [], (List.append_nil _).symm, fun _ => rfl⟩
    have hsupported₁ : Supported dag m₁.state id := fun pred hpred =>
      (hphase₁ pred).symm ▸ hsupported pred hpred
    have hslack : m₁.state.budget.HasSlack id := fun d _ c hc => by
      rw [show m₁.state.budget.cap d = none from huncapped d] at hc
      cases hc
    have hpath : settle (decide (Supported dag m₁.state id)) (decide (m₁.state.budget.HasSlack id)) 6
        (m₁.state.phase id) = [.ready, .running] := by
      rw [decide_eq_true hsupported₁, decide_eq_true hslack, hphase₁, hpending]
      rfl
    have hdrive := wp_drive_plain (w := w) (m := m₁) dag id
      (hseeded.setup.plain hplain) 6 transitions fun untilMs => by simp [hphase₁, hpending]
    rw [hpath] at hdrive
    apply wp_bind.mpr
    refine wp_mono hdrive (fun transitions₂ m₂ hdriven => ?_) fun _ _ he => he
    have hswept := hseeded.union (Swept.of_driven hdriven) (List.disjoint_nil_left _)
    have hready₂ : ∀ id' ∈ wave, m₂.state.phase id' = .pending ∧ Supported dag m₂.state id' := by
      intro id' hid'
      have hne : id' ∉ [] ++ [id] := by
        rintro hmem
        exact hid (List.mem_singleton.mp hmem ▸ hid')
      refine ⟨(hswept.phase_of_not_mem hne).trans (hrest id' hid').1, fun pred hpred => ?_⟩
      have hterminal := (hrest id' hid').2 pred hpred
      -- a job that is not terminal yet supports nobody
      have hpred' : pred ∉ [] ++ [id] := by
        intro hmem
        rw [List.mem_singleton.mp hmem, hpending] at hterminal
        cases hterminal
      rwa [hswept.phase_of_not_mem hpred']
    have huncapped₂ : ∀ d, m₂.state.budget.cap d = none := fun d => by
      rw [hswept.caps]
      exact huncapped d
    refine wp_mono (ih hnodup (hswept.setup.plain hplain) huncapped₂ hready₂)
      (fun transitions' m' h => ?_) fun _ _ he => he
    exact hswept.union h (List.disjoint_singleton.mpr hid).symm

/-- **PASS 3 gives up every job that failed.** -/
theorem wp_pass3_sweep (hnodup : wave.Nodup) (hplain : m.state.state.Plain)
    (hended : ∀ id ∈ wave, m.state.phase id = ExecResult.phase (verdict id)) :
    wp (handle w) 0 (pass3 dag wave transitions)
      (fun transitions' m' => Swept wave (fun id => ExecResult.cleanup (verdict id)) m transitions m'
        transitions')
      (fun _ _ => False) m := by
  induction wave generalizing m transitions with
  | nil => exact .nil m transitions
  | cons id wave ih =>
    obtain ⟨hid, hnodup⟩ := List.nodup_cons.mp hnodup
    obtain ⟨hphase, hrest⟩ := List.forall_mem_cons.mp hended
    have hdrive := wp_drive_plain (w := w) dag id hplain 3 transitions fun untilMs => by
      rw [hphase]
      cases verdict id <;> simp [ExecResult.phase]
    rw [hphase, settle_phase, ← hphase] at hdrive
    apply wp_bind.mpr
    refine wp_mono hdrive (fun transitions₁ m₁ hdriven => ?_) fun _ _ he => he
    have hswept : Swept [id] (fun id => ExecResult.cleanup (verdict id)) m transitions m₁ transitions₁ :=
      (Swept.of_driven hdriven).congr fun id' hid' => by rw [List.mem_singleton.mp hid']
    have hended₁ : ∀ id' ∈ wave, m₁.state.phase id' = ExecResult.phase (verdict id') := by
      intro id' hid'
      have hne : id' ∉ [id] := fun hmem => hid (List.mem_singleton.mp hmem ▸ hid')
      exact (hswept.phase_of_not_mem hne).trans (hrest id' hid')
    refine wp_mono (ih hnodup (hswept.setup.plain hplain) hended₁) (fun transitions' m' h => ?_)
      fun _ _ he => he
    exact hswept.union h (List.disjoint_singleton.mpr hid).symm

theorem TasksOf.steps {state : SchedulerState} {tasks : List Task} (h : TasksOf state ids tasks)
    (hyields : state.Yields verdict) : tasks.filterMap Task.step =
      ids.map fun id => (id, .running, ExecResult.phase (verdict id)) := by
  induction h with
  | nil => rfl
  | @cons id task ids tasks htask _ ih =>
    obtain ⟨time, rfl⟩ := htask
    have hstep : (state.taskOf id time).step = some (id, .running, ExecResult.phase (verdict id)) := by
      rw [Task.step, hyields id time, SchedulerState.taskOf_id]
      rfl
    rw [List.filterMap_cons, hstep, List.map_cons, ih]

theorem stepsOf_map (step : JobId → JobPhase × JobPhase) (hnodup : ids.Nodup) (id : JobId) :
    stepsOf id (ids.map fun id => (id, step id)) = if id ∈ ids then [step id] else [] := by
  induction ids with
  | nil => rfl
  | cons id' ids ih =>
    obtain ⟨hid', hnodup⟩ := List.nodup_cons.mp hnodup
    have hrest := ih hnodup
    rw [List.map_cons, ← List.singleton_append, stepsOf_append, hrest]
    by_cases hid : id = id'
    · subst hid
      simp [stepsOf, hid']
    · simp [stepsOf, hid, Ne.symm hid]

/-- **PASS 2 executes every job** of a wave that PASS 1 has started. -/
theorem wp_pass2_sweep (hnodup : wave.Nodup) (hyields : m.state.state.Yields verdict)
    (hrunning : ∀ id ∈ wave, m.state.phase id = .running) :
    wp (handle w) 0 (pass2 wave transitions)
      (fun transitions' m' => Swept wave (fun id => [ExecResult.phase (verdict id)]) m transitions m'
          transitions' ∧
        (runs w m'.log).map (·.id) = (runs w m.log).map (·.id) ++ wave)
      (fun _ _ => False) m := by
  have hall : m.state.runningOf wave = wave := List.filter_eq_self.mpr fun id hid =>
    decide_eq_true (get?_of_phaseIn (hrunning id hid) (by simp))
  refine wp_mono (wp_pass2 hnodup) ?_ fun _ _ he => he
  rintro _ m' ⟨tasks, new, hexecuted, rfl, hsteps⟩
  rw [hall] at hexecuted
  rw [hexecuted.ran.steps hyields] at hsteps
  refine ⟨⟨fun id => ?_, hexecuted.setup, hexecuted.caps, new, rfl, fun id => ?_⟩, ?_⟩
  · by_cases hid : id ∈ wave
    · rw [hexecuted.phase_of_yields hyields hid, if_pos hid]
      rfl
    · rw [hexecuted.others id hid, if_neg hid]
  · have hperm : (stepsOf id (new.map TransitionEvent.step)).Perm
        (stepsOf id (wave.map fun id => (id, .running, ExecResult.phase (verdict id)))) :=
      (hsteps.filter _).map _
    rw [stepsOf_map (fun id => (.running, ExecResult.phase (verdict id))) hnodup] at hperm
    by_cases hid : id ∈ wave
    · rw [if_pos hid] at hperm ⊢
      rw [List.perm_singleton.mp hperm, hrunning id hid]
      rfl
    · rw [if_neg hid] at hperm ⊢
      exact List.perm_nil.mp hperm
  · rw [hexecuted.runs, List.map_append, hexecuted.ran.map_id]

/-! ## The tick -/

/-- The phases after Pending of a job that meets no obstacle. -/
def ExecResult.journey : ExecResult → List JobPhase
  | .ok _ => [.ready, .running, .succeeded]
  | .error _ => [.ready, .running, .failed 1, .deadlettered]

theorem ExecResult.journey_eq (result : ExecResult) : ExecResult.journey result =
    ([.ready, .running] ++ [ExecResult.phase result]) ++ ExecResult.cleanup result := by
  cases result <;> rfl

theorem ExecResult.getLastD_journey (result : ExecResult) (phase : JobPhase) :
    (ExecResult.journey result).getLastD phase = ExecResult.final result := by
  cases result <;> rfl

/-- **The waves take every job to its end**, one after the other. -/
theorem wp_runWaves_sweep {waves : List (List JobId)} {done : JobId → Prop}
    (hlayered : dag.Layered done waves) (hnodup : waves.flatten.Nodup) (hplain : m.state.state.Plain)
    (hyields : m.state.state.Yields verdict) (huncapped : ∀ d, m.state.budget.cap d = none)
    (hdone : ∀ id, done id → (m.state.phase id).isTerminal = true)
    (hpending : ∀ id ∈ waves.flatten, m.state.phase id = .pending) :
    wp (handle w) 0 (runWaves dag waves transitions)
      (fun transitions' m' => Swept waves.flatten (fun id => ExecResult.journey (verdict id)) m transitions
          m' transitions' ∧
        (runs w m'.log).map (·.id) = (runs w m.log).map (·.id) ++ waves.flatten)
      (fun _ _ => False) m := by
  induction waves generalizing m transitions done with
  | nil => exact ⟨.nil m transitions, (List.append_nil _).symm⟩
  | cons wave waves ih =>
    rw [List.flatten_cons] at hnodup hpending ⊢
    obtain ⟨hwave, hrest, hdisjoint⟩ := List.nodup_append'.mp hnodup
    apply wp_bind.mpr
    -- all predecessors lie in earlier waves, so they have ended: PASS 1 starts the whole wave
    have hready : ∀ id ∈ wave, m.state.phase id = .pending ∧ Supported dag m.state id := fun id hid =>
      ⟨hpending id (List.mem_append_left _ hid), fun pred hpred =>
        hdone pred (hlayered.1 id hid pred hpred)⟩
    refine wp_mono (wp_and (wp_pass1_sweep hwave hplain huncapped hready)
      (wp_drives (issues_pass1 dag wave transitions))) ?_ fun _ _ he => he.1
    rintro transitions₁ m₁ ⟨h₁, hdrove₁⟩
    apply wp_bind.mpr
    -- PASS 2 ends every job of it, and PASS 3 deadletters the failed ones
    have hrunning : ∀ id ∈ wave, m₁.state.phase id = .running := fun id hid => h₁.phase_of_mem hid
    refine wp_mono (wp_pass2_sweep hwave (h₁.setup.yields hyields) hrunning) ?_ fun _ _ he => he
    rintro transitions₂ m₂ ⟨h₂, hruns₂⟩
    have hended : ∀ id ∈ wave, m₂.state.phase id = ExecResult.phase (verdict id) := fun id hid =>
      h₂.phase_of_mem hid
    have hplain₂ := (h₁.setup.trans h₂.setup).plain hplain
    apply wp_bind.mpr
    refine wp_mono (wp_and (wp_pass3_sweep hwave hplain₂ hended)
      (wp_drives (issues_pass3 dag wave transitions₂))) ?_ fun _ _ he => he.1
    rintro transitions₃ m₃ ⟨h₃, hdrove₃⟩
    have hswept : Swept wave (fun id => ExecResult.journey (verdict id)) m transitions m₃ transitions₃ :=
      ((h₁.append h₂).append h₃).congr fun id _ => (ExecResult.journey_eq (verdict id)).symm
    have hruns₃ : (runs w m₃.log).map (·.id) = (runs w m.log).map (·.id) ++ wave := by
      rw [hdrove₃.runs, hruns₂, hdrove₁.runs]
    have hdone₃ : ∀ id, done id ∨ id ∈ wave → (m₃.state.phase id).isTerminal = true := by
      intro id hid
      by_cases hmem : id ∈ wave
      · rw [hswept.phase_of_mem hmem, ExecResult.getLastD_journey]
        exact ExecResult.isTerminal_final _
      · rw [hswept.phase_of_not_mem hmem]
        exact hdone id (hid.resolve_right hmem)
    have huncapped₃ : ∀ d, m₃.state.budget.cap d = none := fun d => by
      rw [hswept.caps]
      exact huncapped d
    have hpending₃ : ∀ id ∈ waves.flatten, m₃.state.phase id = .pending := fun id hid => by
      rw [hswept.phase_of_not_mem fun hmem => hdisjoint hmem hid]
      exact hpending id (List.mem_append_right _ hid)
    refine wp_mono (ih hlayered.2 hrest (hswept.setup.plain hplain) (hswept.setup.yields hyields) huncapped₃
      hdone₃ hpending₃) ?_ fun _ _ he => he
    rintro transitions' m' ⟨h', hruns'⟩
    exact ⟨hswept.union h' hdisjoint, by rw [hruns', hruns₃, List.append_assoc]⟩

theorem wp_tick_sweep (hbuilt : dag.Built) (hsort : w.toposort.Sorts dag.graph)
    (hacyclic : ¬ dag.Cyclic) (hplain : m.state.state.Plain) (hyields : m.state.state.Yields verdict)
    (huncapped : ∀ d, m.state.budget.cap d = none) (hpending : ∀ id, m.state.phase id = .pending) :
    wp (handle w) 0 (tick dag)
      (fun receipt m' => ∃ ids, ids.Perm dag.graph.ids ∧
        Swept ids (fun id => ExecResult.journey (verdict id)) m [] m' receipt.transitionsThisTick ∧
        (runs w m'.log).map (·.id) = (runs w m.log).map (·.id) ++ ids ∧
        ∃ rank spelling, receipt.unhealed = collectUnhealed rank spelling m'.state.state.phases)
      (fun _ _ => False) m := by
  refine wp_tick_acyclic hbuilt hsort hacyclic fun ws hlayered hperm hnodup => ?_
  refine wp_mono (wp_runWaves_sweep hlayered hnodup hplain hyields huncapped
    (fun _ hid => hid.elim) fun id _ => hpending id) ?_ fun _ _ he => he
  rintro transitions m₂ ⟨hswept, hruns⟩
  exact ⟨ws.flatten, hperm, ⟨hswept.phase, hswept.setup, hswept.caps, hswept.steps⟩, hruns, _, _, rfl⟩

/-! ## The order of the executions -/

/-- A job that was terminal at some moment still is what it was. -/
def TerminalStays (m : SchedMachine) : Prop :=
  ∀ e ∈ m.log, ∀ id, (e.pre.phase id).isTerminal = true → m.state.phase id = e.pre.phase id

theorem TerminalStays.step {c : Cmd} (h : TerminalStays m)
    (hallows : (viewOf w 0 m.log).Allows c)
    (hc : c.Permitted (Call.ticksOn dag) (viewOf w 0 m.log).pass.dag) :
    TerminalStays (m.step (handle w) 0 c) := by
  have hkeeps : ∀ id, (m.state.phase id).isTerminal = true →
      (handle w c m.state).2.phase id = m.state.phase id := by
    intro id hterminal
    rcases phase_handle w c m.state id with hsame | ⟨signal, rfl, hadvance⟩ | hwrite | ⟨saved, rfl⟩
    · exact hsame
    · have hdue : Due (viewOf w 0 m.log).pass id (viewOf w 0 m.log).focus signal := hallows
      exact absurd hterminal (by simp [hdue.not_terminal hadvance])
    · rw [hwrite] at hc
      exact hc.elim fun _ hnot => hnot.elim
    · exact hc.elim
  intro e he id hterminal
  rcases List.mem_cons.mp he with rfl | hold
  · exact hkeeps id hterminal
  · have hsame := h e hold id hterminal
    exact (hkeeps id (hsame.symm ▸ hterminal)).trans hsame

/-! ## The result -/

/-- Every node of the graph was executed once, after its predecessors had ended, and has ended as its
verdict says; the receipt lists the events of each node and the jobs that were given up. -/
structure Drained (w : World) (dag : Dag) (verdict : JobId → ExecResult) (receipt : TickReceipt)
    (m : SchedMachine) : Prop where
  executed : ((runs w m.log).map (·.id)).Perm dag.graph.ids
  ended : ∀ id ∈ dag.graph.ids, m.state.phase id = ExecResult.final (verdict id)
  ordered : ∀ e ∈ m.log, ∀ id, (e.pre.phase id).started = true →
    ∀ pred ∈ dag.predecessors id, e.pre.phase pred = ExecResult.final (verdict pred)
  events : ∀ id, stepsOf id (receipt.transitionsThisTick.map TransitionEvent.step) =
    if id ∈ dag.graph.ids then pathSteps .pending (ExecResult.journey (verdict id)) else []
  unhealed : (receipt.unhealed.map (·.jobId)).Nodup ∧
    ∀ drift, drift ∈ receipt.unhealed ↔
      m.state.phase drift.jobId = .deadlettered ∧ drift = ⟨drift.jobId, .deadlettered, 0⟩

/-- **One tick drains an unconstrained graph.** On a fresh scheduler without gates, policies and caps,
one tick on an acyclic graph executes every node once and takes it to its end. -/
theorem tick_drains (w : World) (tool : String) {setup : List Call}
    (hsetup : ∀ call ∈ setup, call.prepares = true) {dag : Dag} (hbuilt : dag.Built)
    (hsort : w.toposort.Sorts dag.graph) (hacyclic : ¬ dag.Cyclic) (outcome : JobId → ExecResult) :
    let s := (runCalls w setup (InProcessScheduler.new tool).start).state
    s.state.Plain → s.state.Ends outcome → (∀ d, s.budget.cap d = none) →
    let run := (tick dag).exec (handle w) 0 s.start
    ∃ receipt, run.1 = .ok receipt ∧ Drained w dag (s.state.verdict outcome) receipt run.2 := by
  intro s hplain hends huncapped run
  have hpending : ∀ id, s.phase id = .pending := ((Unstarted.new w tool).prepared hsetup).phase
  have hspec := wp_iff_exec.mp (wp_tick_sweep (w := w) (m := s.start) hbuilt hsort hacyclic hplain
    hends.yields huncapped hpending)
  have hrun : runCalls w [.tick dag] s.start = run.2 := exec_discard _ _
  have honly : ∀ call ∈ [Call.tick dag], call.ticksOn dag := by simp [Call.ticksOn]
  have hedges : EdgeOrder w dag run.2 := hrun ▸ EdgeOrder.run hpending honly
  have hstays : TerminalStays run.2 := hrun ▸ (runCalls_induct
    (fun m c _ hm hallows hc => TerminalStays.step hm hallows hc) honly (Sequential.start w s)
    (Resting.start w s) (fun e he => absurd he List.not_mem_nil)).1
  cases hend : run.1 with
  | error e => exact (hspec.2 e hend).elim
  | ok receipt =>
    obtain ⟨ids, hperm, hswept, hruns, rank, spelling, hunhealed⟩ := hspec.1 receipt hend
    have hended : ∀ id ∈ dag.graph.ids,
        run.2.state.phase id = ExecResult.final (s.state.verdict outcome id) := fun id hid =>
      (hswept.phase_of_mem (hperm.mem_iff.mpr hid)).trans (ExecResult.getLastD_journey _ _)
    refine ⟨receipt, rfl, ?_, hended, fun e he id hstarted pred hpred => ?_, fun id => ?_, ?_, ?_⟩
    · rw [hruns]
      exact hperm
    · -- what is terminal when its successor starts stays as it is to the end
      have hterminal := hedges.past e he id hstarted pred hpred
      have hnode : pred ∈ dag.graph.ids :=
        hbuilt.wellFormed.mem_ids.mpr (hbuilt.wellFormed.nodes hpred).1
      rw [← hstays e he pred hterminal]
      exact hended pred hnode
    · obtain ⟨new, hnew, hsteps⟩ := hswept.steps
      rw [hnew, List.nil_append, hsteps, show s.start.state.phase id = .pending from hpending id]
      by_cases hid : id ∈ dag.graph.ids
      · rw [if_pos hid, if_pos (hperm.mem_iff.mpr hid)]
      · rw [if_neg hid, if_neg fun hmem => hid (hperm.mem_iff.mp hmem)]
    · rw [hunhealed]
      exact collectUnhealed_nodup rank spelling _
    · intro drift
      rw [hunhealed, mem_collectUnhealed]
      constructor
      · rintro ⟨id, phase, hget, hphase, rfl⟩
        have hid : run.2.state.phase id = phase := congrArg (fun p => p.getD JobPhase.pending) hget
        rcases hphase with rfl | rfl
        · exact ⟨hid, rfl⟩
        · -- no job waits for an operator
          by_cases hmem : id ∈ ids
          · rw [hswept.phase_of_mem hmem, ExecResult.getLastD_journey] at hid
            cases hverdict : s.state.verdict outcome id <;> rw [hverdict] at hid <;> cases hid
          · rw [hswept.phase_of_not_mem hmem, show s.start.state.phase id = .pending from hpending id] at hid
            cases hid
      · rintro ⟨hphase, hdrift⟩
        exact ⟨drift.jobId, .deadlettered, get?_of_phaseIn hphase (by simp), .inl rfl, hdrift⟩

/-- On the chain from `a` over `b` to `c`, where `b` fails and `c` is not registered, `c` is executed all
the same, and both are given up. -/
theorem tick_drains_detour :
    let run := (tick Sample.detour).exec (handle Sample.agedWorld) 0
      (runCalls Sample.agedWorld Sample.okAndErr (InProcessScheduler.new "t").start).state.start
    ∃ receipt, run.1 = .ok receipt ∧
      stepsOf (Sample.jobId "c") (receipt.transitionsThisTick.map TransitionEvent.step) =
        [(.pending, .ready), (.ready, .running), (.running, .failed 1), (.failed 1, .deadlettered)] ∧
      ⟨Sample.jobId "b", .deadlettered, 0⟩ ∈ receipt.unhealed := by
  obtain ⟨receipt, hok, hdrained⟩ := tick_drains Sample.agedWorld "t" (by decide) built_detour
    sorts_detour Dag.acyclic_detour Sample.twoOutcomes plain_okAndErr ends_okAndErr
    fun d => by cases d <;> rfl
  refine ⟨receipt, hok, ?_, (hdrained.unhealed.2 ⟨Sample.jobId "b", .deadlettered, 0⟩).mpr ⟨?_, rfl⟩⟩
  · exact (hdrained.events _).trans (by decide +kernel)
  · exact (hdrained.ended _ (by decide +kernel)).trans (by decide +kernel)

end Shigoto
