import Shigoto.Scheduler.Issued
import Shigoto.Scheduler.Sequential

/-!
# A tick that runs alone

From any state of the scheduler, reachable or not, a tick that nobody disturbs sends only signals
that the phase table accepts, and fails only where the graph cannot be sorted. As the waves are
disjoint and PASS 2 collects each job of a wave once, no job is executed twice.
-/

namespace Shigoto

open Atomic

variable {w : World} {m : SchedMachine}

/-! ## Executions of a tick -/

/-- Spawning starts one execution for each entry of the list. -/
theorem wp_spawnAll_executions (ids : List JobId) (tasks : List Task) (id : JobId) :
    wp (handle w) 0 (spawnAll ids tasks)
      (fun _ m' => executions id m'.log = executions id m.log + ids.count id) (fun _ _ => False) m := by
  induction ids generalizing m tasks with
  | nil => exact rfl
  | cons id' ids ih =>
    apply wp_perform_bind.mpr
    apply wp_perform_bind.mpr
    refine wp_mono (ih _) (fun _ m' h => ?_) fun _ _ h => h
    rw [h, Machine.step, executions_spawn, Machine.step, executions_cons_of_ne (by simp),
      List.count_cons]
    simp only [beq_iff_eq]
    omega

theorem wp_pass_executions {ids : List JobId} {p : Sched (List TransitionEvent)}
    (hp : Sched.Issues (Cmd.drives ids) p ∨ Sched.Issues (Cmd.applies ids) p) (id : JobId) :
    wp (handle w) 0 p (fun _ m' => executions id m'.log = executions id m.log)
      (fun e m' => e.refusal ∧ executions id m'.log = executions id m.log) m := by
  rcases hp with hp | hp
  · exact hp.wp (J := fun m' => executions id m'.log = executions id m.log)
      (fun m' c hm' hc => (executions_step (.inl hc) m' id).trans hm') rfl
  · exact hp.wp (J := fun m' => executions id m'.log = executions id m.log)
      (fun m' c hm' hc => (executions_step (.inr hc) m' id).trans hm') rfl

theorem wp_pass2_executions (wave : List JobId) (transitions : List TransitionEvent) (id : JobId) :
    wp (handle w) 0 (pass2 wave transitions)
      (fun _ m' => executions id m'.log ≤ executions id m.log + wave.count id)
      (fun e m' => e.refusal ∧ executions id m'.log ≤ executions id m.log + wave.count id) m := by
  apply wp_perform_bind.mpr
  have hcollect : executions id (m.step (handle w) 0 (.runningOf wave)).log = executions id m.log :=
    executions_cons_of_ne (by simp) 0 m.state m.log
  have hsub : ((handle w (.runningOf wave) m.state).1 : List JobId).count id ≤ wave.count id :=
    List.Sublist.count_le id (answers_handle w (fun _ => True) (.runningOf wave) m.state)
  split
  · show executions id _ ≤ _
    omega
  · apply wp_bind.mpr
    apply wp_bind.mpr
    refine wp_mono (wp_spawnAll_executions _ [] id) (fun tasks m₁ h₁ => ?_) fun _ _ h => h.elim
    apply wp_perform.mpr
    have hjoin : executions id (m₁.step (handle w) 0 (.join tasks)).log = executions id m₁.log :=
      executions_cons_of_ne (by simp) 0 m₁.state m₁.log
    refine wp_mono (wp_pass_executions (.inr (issues_applyAll _ _)) id) (fun _ m₂ h₂ => ?_)
      fun _ m₂ h₂ => ⟨h₂.1, ?_⟩ <;> omega

theorem wp_runWaves_executions (dag : Dag) (waves : List (List JobId))
    (transitions : List TransitionEvent) (id : JobId) :
    wp (handle w) 0 (runWaves dag waves transitions)
      (fun _ m' => executions id m'.log ≤ executions id m.log + waves.flatten.count id)
      (fun e m' => e.refusal ∧
        executions id m'.log ≤ executions id m.log + waves.flatten.count id) m := by
  induction waves generalizing m transitions with
  | nil => exact le_rfl
  | cons wave waves ih =>
    rw [List.flatten_cons, List.count_append]
    apply wp_bind.mpr
    refine wp_mono (wp_pass_executions (.inl (issues_pass1 dag wave transitions)) id)
      (fun transitions₁ m₁ h₁ => ?_) fun _ m₁ h₁ => ⟨h₁.1, by omega⟩
    apply wp_bind.mpr
    refine wp_mono (wp_pass2_executions wave transitions₁ id) (fun transitions₂ m₂ h₂ => ?_)
      fun _ m₂ h₂ => ⟨h₂.1, by omega⟩
    apply wp_bind.mpr
    refine wp_mono (wp_pass_executions (.inl (issues_pass3 dag wave transitions₂)) id)
      (fun transitions₃ m₃ h₃ => ?_) fun _ m₃ h₃ => ⟨h₃.1, by omega⟩
    exact wp_mono (ih transitions₃) (fun _ m₄ h₄ => by omega) fun _ m₄ h₄ => ⟨h₄.1, by omega⟩

/-- **A tick executes each job at most once**: it is in one wave, and is collected there once. A tick
that fails was refused a signal or could not sort the graph. -/
theorem wp_tick_executions (dag : Dag) (id : JobId) :
    wp (handle w) 0 (tick dag) (fun _ m' => executions id m'.log ≤ executions id m.log + 1)
      (fun e m' => (e.refusal ∨ ∃ i, w.toposort dag.graph = .error i) ∧
        executions id m'.log ≤ executions id m.log + 1) m := by
  have hstart : executions id ((m.step (handle w) 0 .now).step (handle w) 0 (.waves dag)).log =
      executions id m.log := by
    rw [Machine.step, executions_cons_of_ne (by simp), Machine.step, executions_cons_of_ne (by simp)]
  refine wp_tick (fun e herror => ⟨.inr (Dag.waves_error herror), by omega⟩) fun ws hwaves => ?_
  have hone : ws.flatten.count id ≤ 1 := List.nodup_iff_count_le_one.mp (Dag.waves_nodup hwaves) id
  refine wp_mono (wp_runWaves_executions dag ws [] id) (fun _ m₁ h₁ => ?_)
    fun _ m₁ h₁ => ⟨.inl h₁.1, by omega⟩
  have hend : executions id
      ((m₁.step (handle w) 0 .snapshotInner).step (handle w) 0 .hashOrder).log =
      executions id m₁.log := by
    rw [Machine.step, executions_cons_of_ne (by simp), Machine.step, executions_cons_of_ne (by simp)]
  omega

/-! ## Signals of a tick -/

/-- Every signal sent is one that the phase table accepts. -/
def Accepted (log : List SchedEvent) : Prop :=
  ∀ e ∈ log, ∀ id signal, e.cmd = .dispatch id signal →
    ∃ target, advance (e.pre.phase id) signal = .ok target

theorem Accepted.step {m : SchedMachine} (hs : Sequential w m) (h : Accepted m.log) {c : Cmd}
    (hallows : (viewOf w 0 m.log).Allows c) : Accepted (m.step (handle w) 0 c).log := by
  intro e he id signal hcmd
  rcases List.mem_cons.mp he with rfl | he
  · obtain rfl : c = .dispatch id signal := hcmd
    exact View.Consistent.advance hs hallows
  · exact h e he id signal hcmd

/-- Between two calls a caller whose view is sound is never refused. -/
theorem tick_accepted (dag : Dag) (hs : Sequential w m) (hrest : Resting w m)
    (haccepted : Accepted m.log) :
    Accepted ((tick dag).exec (handle w) 0 m).2.log ∧
      ∀ e, ((tick dag).exec (handle w) 0 m).1 = .error e → ¬ e.refusal := by
  obtain ⟨⟨haccepted', hs'⟩, hend⟩ := Obeys.exec (handle w)
    (J := fun m => Accepted m.log ∧ Sequential w m) (fun c s => answers_handle w (fun _ => True) c s)
    (fun m c hm hc => ⟨hm.1.step hm.2 hc.1, hm.2.step hc.1⟩)
    (tick_keeps (P := fun _ => True) True.intro hrest) ⟨haccepted, hs⟩
  refine ⟨haccepted', fun e herror hrefusal => ?_⟩
  rw [herror] at hend
  cases e with
  | topology cycle => exact hrefusal
  | illegalTransition refusal =>
    have hagrees := hs'.agrees
    rw [viewOf, show (view _).focus = .refused from hend] at hagrees
    exact hagrees.elim

/-- A tick that runs alone is refused nothing, whatever was logged before it. -/
theorem tick_not_refused (dag : Dag) (m : SchedMachine) :
    ∀ e, ((tick dag).exec (handle w) 0 m).1 = .error e → ¬ e.refusal := by
  have hsame := congrArg Prod.fst (exec_log (h := handle w) (t := 0) (tick dag) m.state.start m.log)
  intro e herror
  exact (tick_accepted dag (Sequential.start w m.state) (Resting.start w m.state)
    fun e he => absurd he List.not_mem_nil).2 e (hsame.symm.trans herror)

/-- A tick that runs alone fails only where the graph cannot be sorted. -/
theorem unsorted_of_error {dag : Dag} {m : SchedMachine} {e : SchedulerError}
    (h : ((tick dag).exec (handle w) 0 m).1 = .error e) : ∃ i, w.toposort dag.graph = .error i := by
  have hspec := wp_iff_exec.mp (wp_tick_executions (w := w) (m := m) dag ⟨.global, ⟨""⟩, .none⟩)
  exact (hspec.2 e h).1.resolve_left (tick_not_refused dag m e h)

/-! ## The result -/

/-- **A tick that runs alone is never refused a signal.** From any state of the scheduler, on any
graph, whatever the gates, the clock and the outcomes are: each signal is accepted in the phase that
it meets, the tick fails only where the graph cannot be sorted, and no job is executed twice. -/
theorem tick_never_refused (w : World) (s : InProcessScheduler) (dag : Dag) :
    let run := (tick dag).exec (handle w) 0 s.start
    (∀ refusal, run.1 ≠ .error (.illegalTransition refusal)) ∧
    (∀ e, run.1 = .error e → ∃ i, w.toposort dag.graph = .error i) ∧
    Accepted run.2.log ∧ ∀ id, executions id run.2.log ≤ 1 := by
  intro run
  have hstart : Accepted s.start.log := by
    intro e he
    exact absurd he List.not_mem_nil
  obtain ⟨haccepted, hnot⟩ :=
    tick_accepted dag (Sequential.start w s) (Resting.start w s) hstart
  refine ⟨fun refusal herror => hnot _ herror True.intro, fun e herror => unsorted_of_error herror,
    haccepted, fun id => ?_⟩
  have hspec := wp_iff_exec.mp (wp_tick_executions (w := w) (m := s.start) dag id)
  have hzero : executions id s.start.log = 0 := rfl
  cases hend : run.1 with
  | ok receipt => simpa [hzero] using hspec.1 receipt hend
  | error e => simpa [hzero] using (hspec.2 e hend).2

end Shigoto
