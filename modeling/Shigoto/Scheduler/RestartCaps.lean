import Shigoto.Scheduler.BudgetSafety
import Shigoto.Scheduler.Restart

/-!
# Caps across a restart

A restore carries phases and no slots. A job that the snapshot calls Running is Running in the new
scheduler and holds no slot there: it is executed beyond the caps, and its release gives back the slot
of some other job. When the snapshot has no Running job, the books are as they were, and every later
run stays within the caps.
-/

namespace Shigoto

open Atomic BudgetTree

variable {w : World}

/-! ## Registration -/

theorem Cmd.not_moves_of_registers {c : Cmd} {dag : Dag}
    (h : c.Permitted (fun call => call.registers = true) dag) : c.moves = false := by
  cases c with
  | dispatch id signal => exact absurd h (by simp [Permitted, Call.registers])
  | overwrite id phase => exact absurd h (by simp [Permitted, Call.registers])
  | restoreState saved => exact absurd h (by simp [Permitted, Call.registers])
  | _ => rfl

/-- Registering starts no job. -/
theorem runCalls_registers {calls : List Call} (hcalls : ∀ call ∈ calls, call.registers = true)
    {m : SchedMachine} (hs : Sequential w m) (hrest : Resting w m)
    (h : ∀ id, m.state.phase id ≠ .running) :
    Sequential w (runCalls w calls m) ∧ Resting w (runCalls w calls m) ∧
      ∀ id, (runCalls w calls m).state.phase id ≠ .running := by
  have hrun := runCalls_induct (J := fun m => ∀ id, m.state.phase id ≠ .running)
    (fun m c _ hm _ hc id => by
      rw [Machine.step, phase_of_not_moves w (Cmd.not_moves_of_registers hc)]
      exact hm id) hcalls hs hrest h
  exact ⟨hrun.2.1, hrun.2.2, hrun.1⟩

/-! ## The restore -/

/-- A snapshot without Running jobs brings none. -/
theorem phase_restoreState_ne_running {s : InProcessScheduler} {saved : SchedulerSnapshot}
    (hsaved : ∀ job ∈ saved.jobs, job.phase ≠ .running) (h : ∀ id, s.phase id ≠ .running) (id : JobId) :
    (handle w (.restoreState saved) s).2.phase id ≠ .running := by
  intro hrunning
  have hget : (s.state.restoreAll saved.jobs).phases.get? id = some .running :=
    get?_of_phaseIn hrunning (by simp)
  rcases phases_restoreAll_cases hget with ⟨job, hjob, -, hphase⟩ | hbefore
  · exact hsaved job hjob hphase
  · exact h id (by simp [InProcessScheduler.phase, phaseIn, hbefore])

/-- **Where nothing is Running, a restore keeps the books**: before it and after it no slot is
held. -/
theorem WithinBudget.restoreState {cap : Dim → Option UInt32} {m : SchedMachine}
    (hm : WithinBudget w cap m) (hrest : Resting w m) (hidle : ∀ id, m.state.phase id ≠ .running)
    {saved : SchedulerSnapshot} (hsaved : ∀ job ∈ saved.jobs, job.phase ≠ .running) :
    WithinBudget w cap (m.step (handle w) 0 (.restoreState saved)) := by
  have hbefore : heldSlots 0 m.log = 0 :=
    (hm.held_of_resting hrest).trans (InProcessScheduler.running_eq_zero hidle)
  have hafter : (m.step (handle w) 0 (.restoreState saved)).state.running = 0 :=
    InProcessScheduler.running_eq_zero (phase_restoreState_ne_running hsaved hidle)
  have hsize := size_phases_le w (.restoreState saved) m.state
  refine ⟨hm.caps, ?_, ?_, hm.released, hm.accounted.step hrest, fun log hlog => ?_⟩
  · rw [viewOf_step_self, hafter]
    exact hbefore
  · exact ⟨hm.books.holds.mono fun d hd => hd.imp_right fun hlt => hsize.trans_lt hlt, hm.books.within⟩
  · rcases List.suffix_cons_iff.mp hlog with rfl | hlog
    · exact hm.capped m.log List.suffix_rfl
    · exact hm.capped log hlog

/-! ## The result -/

/-- Nothing executes beyond a cap of `b`, and only held slots are released. -/
def CapsKept (b : BudgetTree) (log : List SchedEvent) : Prop :=
  (∀ log', log' <:+ log → ∀ d c, b.cap d = some c → heldIn d (executing log') ≤ c.toNat) ∧
    releasesHeld 0 log = true

/-- The calls of a new scheduler that is built up, takes over a snapshot and goes on. -/
def takeOver (b : BudgetTree) (setup : List Call) (saved : SchedulerSnapshot) (later : List Call) :
    List Call :=
  .installBudget b :: setup ++ .restoreState saved :: later

theorem capsKept_takeOver (w : World) (tool : String) {b : BudgetTree} (hidle : b.Idle)
    {setup later : List Call} (hsetup : ∀ call ∈ setup, call.registers = true)
    (hlater : ∀ call ∈ later, call.ordinary = true) {saved : SchedulerSnapshot}
    (hsaved : ∀ job ∈ saved.jobs, job.phase ≠ .running) :
    CapsKept b (runCalls w (takeOver b setup saved later) (InProcessScheduler.new tool).start).log := by
  -- the scheduler with its budget, then with its jobs, then with the snapshot
  set m₀ := (InProcessScheduler.new tool).start.step (handle w) 0 (.installBudget b) with hm₀
  have hs₀ : Sequential w m₀ := (Sequential.start w _).step (c := .installBudget b) ⟨rfl, rfl⟩
  have hnone₀ : ∀ id, m₀.state.phase id ≠ .running := fun id h => JobPhase.noConfusion h
  obtain ⟨hs₁, hrest₁, hnone₁⟩ := runCalls_registers hsetup hs₀ ⟨rfl, rfl⟩ hnone₀
  obtain ⟨hm₁, -⟩ :=
    runCalls_withinBudget (fun call hcall => Call.ordinary_of_registers (hsetup call hcall))
      hs₀ ⟨rfl, rfl⟩ (WithinBudget.install hidle tool)
  have hm₂ := hm₁.restoreState hrest₁ hnone₁ hsaved
  have hs₂ := hs₁.step (c := .restoreState saved) hrest₁
  have hrest₂ : Resting w ((runCalls w setup m₀).step (handle w) 0 (.restoreState saved)) := by
    rw [Resting, viewOf_step_self]
    exact ⟨rfl, hrest₁.2⟩
  obtain ⟨hm, -⟩ := runCalls_withinBudget hlater hs₂ hrest₂ hm₂
  have hrun : runCalls w (takeOver b setup saved later) (InProcessScheduler.new tool).start =
      runCalls w later ((runCalls w setup m₀).step (handle w) 0 (.restoreState saved)) := by
    rw [takeOver, runCalls_append, hm₀]
    rfl
  rw [hrun]
  exact ⟨hm.capped, hm.released⟩

/-- The snapshot of a scheduler; `rank` is the iteration order of its phases. -/
def InProcessScheduler.saved (rank : JobId → Nat) (s : InProcessScheduler) : SchedulerSnapshot :=
  project rank s.state.phases s.state.attempts s.state.failureHistory

/-- **Caps survive a restart from a state without Running jobs.** -/
theorem caps_survive_restart (w w' : World) (tool tool' : String) {calls : List Call}
    (hnone : ∀ id, (runCalls w calls (InProcessScheduler.new tool).start).state.phase id ≠ .running)
    {b : BudgetTree} (hidle : b.Idle) {setup later : List Call}
    (hsetup : ∀ call ∈ setup, call.registers = true)
    (hlater : ∀ call ∈ later, call.ordinary = true) (rank : JobId → Nat) :
    let s := (runCalls w calls (InProcessScheduler.new tool).start).state
    CapsKept b (runCalls w' (takeOver b setup (s.saved rank) later)
      (InProcessScheduler.new tool').start).log := by
  intro s
  refine capsKept_takeOver w' tool' hidle hsetup hlater fun job hjob hrunning => ?_
  have hget : s.state.phases.get? job.id = some .running := hrunning ▸ (mem_project.mp hjob).1
  exact hnone job.id (congrArg (fun p => p.getD JobPhase.pending) hget)

namespace Sample

/-- Three jobs that all end well. -/
def threeJobs : List Call :=
  [.registerJob (job "a" .ok), .registerJob (job "b" .ok), .registerJob (job "c" .ok)]

/-- Jobs `b` and `c`, without dependencies. -/
def latePair : Dag := (Dag.new.ensureNode (jobId "b")).ensureNode (jobId "c")

/-- Register the jobs and tick once over `a` and `b`. -/
def firstLife (b : BudgetTree) : List Call := .installBudget b :: threeJobs ++ [.tick pair]

/-- Take over the snapshot of the first life, and tick once over `b` and `c`. -/
def secondLife (b : BudgetTree) : SchedMachine :=
  let s := (runCalls world (firstLife b) (InProcessScheduler.new "t").start).state
  runCalls world (takeOver b threeJobs (s.saved fun _ => 0) [.tick latePair])
    (InProcessScheduler.new "t").start

end Sample

/-- With one slot, the first life leaves `b` Running. In the second one `b` and `c` are executed at
the same time, and `b` releases a slot it does not hold. -/
theorem restart_exceeds_cap :
    (runCalls Sample.world (Sample.firstLife Sample.oneSlot) (InProcessScheduler.new "t").start).state.phase
      (Sample.jobId "b") = .running ∧
    (∃ log, log <:+ (Sample.secondLife Sample.oneSlot).log ∧ heldIn .global (executing log) = 2) ∧
    ¬ CapsKept Sample.oneSlot (Sample.secondLife Sample.oneSlot).log := by
  refine ⟨by decide +kernel, ⟨_, List.drop_suffix 11 _, by decide +kernel⟩, fun hkept => ?_⟩
  have hreleased : releasesHeld 0 (Sample.secondLife Sample.oneSlot).log = false := by
    decide +kernel
  rw [hkept.2] at hreleased
  exact Bool.noConfusion hreleased

/-- With two slots nothing is left Running. -/
theorem caps_survive_restart_twoSlots :
    CapsKept { BudgetTree.new with global := some ⟨2⟩ }
      (Sample.secondLife { BudgetTree.new with global := some ⟨2⟩ }).log := by
  have hnone : ∀ id, (runCalls Sample.world (Sample.firstLife { BudgetTree.new with global := some ⟨2⟩ })
      (InProcessScheduler.new "t").start).state.phase id ≠ .running := by
    intro id hid
    have hcard : Multiset.card (runCalls Sample.world
      (Sample.firstLife { BudgetTree.new with global := some ⟨2⟩ })
      (InProcessScheduler.new "t").start).state.running = 0 := by decide +kernel
    have hmem := InProcessScheduler.mem_running.mpr hid
    rw [Multiset.card_eq_zero.mp hcard] at hmem
    exact Multiset.notMem_zero id hmem
  exact caps_survive_restart Sample.world Sample.world "t" "t" hnone (fun d => by cases d <;> rfl)
    (by decide) (by decide) fun _ => 0

end Shigoto
