import Shigoto.Scheduler.Slots

/-!
# Budget safety over whole runs

Between two calls the counters of the budget are the numbers of Running jobs, and what executes at
the same time stays within every cap, whatever the graphs, gates, policies, clock and outcomes are.
Panicked jobs stay Running and keep their slot, so they count on both sides.
-/

namespace Shigoto

open Atomic BudgetTree

variable {w : World}

/-- Neither replaces the budget nor restores a snapshot. -/
def Call.ordinary : Call → Bool
  | .installBudget _ | .restoreState _ => false
  | _ => true

theorem Call.ordinary_of_registers {call : Call} (h : call.registers = true) :
    call.ordinary = true := by
  cases call with
  | installBudget budget => simp [registers] at h
  | restoreState saved => simp [registers] at h
  | _ => rfl

theorem Cmd.ordinary_of_permitted {c : Cmd} {dag : Dag}
    (h : c.Permitted (fun call => call.ordinary = true) dag) : c.ordinary = true := by
  cases c with
  | installBudget budget => exact absurd h (by simp [Permitted, Call.ordinary])
  | restoreState saved => exact absurd h (by simp [Permitted, Call.ordinary])
  | _ => rfl

/-- How many jobs with a given property are Running. -/
def InProcessScheduler.countRunning (s : InProcessScheduler) (q : JobId → Bool) : Nat :=
  s.state.phases.count fun id phase => phase = .running && q id

theorem InProcessScheduler.countRunning_eq (s : InProcessScheduler) (d : Dim) :
    s.countRunning d.covers = heldIn d s.running :=
  Map.count_eq_countP (fun phase => decide (phase = JobPhase.running)) d.covers s.state.phases

theorem cap_of_ordinary {c : Cmd} (hc : c.ordinary = true) (s : InProcessScheduler) :
    (handle w c s).2.budget.cap = s.budget.cap := by
  rw [budget_handle]
  cases c with
  | tryAllocate id => exact cap_tryAllocate s.budget id
  | release id => exact cap_release s.budget id
  | installBudget budget => simp [Cmd.ordinary] at hc
  | _ => rfl

/-- What every run of ordinary calls keeps: the caps as they are; the slots held are those of the
Running jobs and what the caller owes, and the budget counts them; only held slots were released; and
at no moment so far were there more executions than the caps allow. -/
structure WithinBudget (w : World) (cap : Dim → Option UInt32) (m : SchedMachine) : Prop where
  caps : m.state.budget.cap = cap
  held : heldSlots 0 m.log = (viewOf w 0 m.log).focus.owed + m.state.running
  books : Books 4294967296 m.state (heldSlots 0 m.log)
  released : releasesHeld 0 m.log = true
  accounted : Accounted w m.log
  capped : ∀ log, log <:+ m.log → ∀ d c, cap d = some c → heldIn d (executing log) ≤ c.toNat

/-- Before a request for a slot there are fewer Running jobs than jobs. -/
theorem View.Sound.card_held_lt {v : View} {s : InProcessScheduler} (hs : v.Sound s) {id : JobId}
    (hallows : v.Allows (.tryAllocate id)) :
    Multiset.card (v.focus.owed + s.running) < s.state.phases.size := by
  obtain ⟨pass, focus⟩ := v
  obtain ⟨rfl, -⟩ : focus = .looked id .ready ∧ _ := hallows
  have hready : s.phase id = .ready := hs.agrees (.inl True.intro)
  show Multiset.card (0 + s.running) < s.state.phases.size
  rw [Multiset.zero_add]
  exact Map.card_keysWith_lt (get?_of_phaseIn hready (by simp)) (by simp)

/-- A released slot is one that the caller owes. -/
theorem View.owed_of_release {v : View} {id : JobId} (hallows : v.Allows (.release id)) :
    id ∈ v.focus.owed := by
  obtain ⟨results, hfocus⟩ : ∃ results, v.focus = .releasing id results := hallows
  rw [hfocus]
  exact Multiset.mem_singleton_self id

theorem WithinBudget.step {cap : Dim → Option UInt32} {m : SchedMachine} (hs : Sequential w m)
    (h : WithinBudget w cap m) {c : Cmd} (hallows : (viewOf w 0 m.log).Allows c)
    (hc : c.ordinary = true) : WithinBudget w cap (m.step (handle w) 0 c) := by
  have hcaps : (m.step (handle w) 0 c).state.budget.cap = cap :=
    (cap_of_ordinary hc m.state).trans h.caps
  have hreleased : ∀ id, c = .release id → id ∈ heldSlots 0 m.log := by
    rintro id rfl
    rw [h.held]
    exact Multiset.mem_add.mpr (.inl (View.owed_of_release hallows))
  have hbooks : Books 4294967296 (m.step (handle w) 0 c).state
      (heldSlots 0 (m.step (handle w) 0 c).log) := by
    refine h.books.next hc (fun id hid hsize => ?_) hreleased
    subst hid
    rw [h.held]
    exact (Nat.succ_le_of_lt (View.Sound.card_held_lt hs hallows)).trans_lt hsize
  have hheld : heldSlots 0 (m.step (handle w) 0 c).log =
      (viewOf w 0 (m.step (handle w) 0 c).log).focus.owed + (m.step (handle w) 0 c).state.running := by
    have hnext := held_next (w := w) hallows (View.Sound.lands hs hallows) hc 0
    rw [Multiset.add_zero, Multiset.add_zero, ← h.held] at hnext
    rw [viewOf_step_self]
    exact hnext.symm
  have haccounted := h.accounted.step hallows
  refine ⟨hcaps, hheld, hbooks, releasesHeld_cons h.released hreleased, haccounted,
    fun log hlog d c' hc' => ?_⟩
  rcases List.suffix_cons_iff.mp hlog with rfl | hlog
  · have hle : (executing (m.step (handle w) 0 c).log : Multiset JobId) ≤
        heldSlots 0 (m.step (handle w) 0 c).log := by
      rw [hheld]
      exact (executing_le_running (hs.step hallows) haccounted).trans (Multiset.le_add_left _ _)
    exact (heldIn_mono d hle).trans (hbooks.within d c' (hcaps ▸ hc'))
  · exact h.capped log hlog d c' hc'

/-- Ordinary calls keep all of it. -/
theorem runCalls_withinBudget {cap : Dim → Option UInt32} {calls : List Call}
    (hcalls : ∀ call ∈ calls, call.ordinary = true) {m : SchedMachine} (hs : Sequential w m)
    (hrest : Resting w m) (h : WithinBudget w cap m) :
    WithinBudget w cap (runCalls w calls m) ∧ Resting w (runCalls w calls m) := by
  have hrun := runCalls_induct (J := WithinBudget w cap)
    (fun m c hs hm hallows hc => hm.step hs hallows (Cmd.ordinary_of_permitted hc)) hcalls hs hrest h
  exact ⟨hrun.1, hrun.2.2⟩

/-- Between two calls the slots held are those of the Running jobs. -/
theorem WithinBudget.held_of_resting {cap : Dim → Option UInt32} {m : SchedMachine}
    (h : WithinBudget w cap m) (hrest : Resting w m) : heldSlots 0 m.log = m.state.running := by
  rw [h.held, Focus.owed_of_idle hrest.1, Multiset.zero_add]

theorem WithinBudget.counters {cap : Dim → Option UInt32} {m : SchedMachine}
    (h : WithinBudget w cap m) (hrest : Resting w m) (d : Dim)
    (hd : (m.state.budget.cap d).isSome ∨ m.state.state.phases.size < 4294967296) :
    (m.state.budget.counter d).toNat = m.state.countRunning d.covers := by
  rw [m.state.countRunning_eq, ← h.held_of_resting hrest]
  exact h.books.holds d hd

/-! ## The result -/

theorem WithinBudget.install {b : BudgetTree} (hidle : b.Idle) (tool : String) :
    WithinBudget w b.cap
      ((InProcessScheduler.new tool).start.step (handle w) 0 (.installBudget b)) := by
  have hview : viewOf w 0 ((InProcessScheduler.new tool).start.step (handle w) 0
      (.installBudget b)).log = ⟨View.start.pass, .rest⟩ := by
    rw [viewOf_step_self]
    rfl
  refine ⟨rfl, ?_, ?_, rfl, ?_, ?_⟩
  · rw [hview]
    rfl
  · exact ⟨fun d _ => congrArg UInt32.toNat (hidle d), fun d c _ => Nat.zero_le _⟩
  · rw [Accounted, hview]
    exact .refl _
  · intro log hlog d c _
    rcases List.suffix_cons_iff.mp hlog with rfl | hlog
    · exact Nat.zero_le _
    · obtain rfl := List.suffix_nil.mp hlog
      exact Nat.zero_le _

/-- **Budget safety.** After a budget with free slots is installed in a fresh scheduler, and after
any calls that neither replace it nor restore a snapshot, each counter is the number of Running jobs
it stands for, and never did more jobs execute at the same time than a cap allows. -/
theorem budget_counts_running (w : World) (tool : String) {b : BudgetTree} (hidle : b.Idle)
    {calls : List Call} (hcalls : ∀ call ∈ calls, call.ordinary = true) :
    let m := runCalls w (.installBudget b :: calls) (InProcessScheduler.new tool).start
    (m.state.state.phases.size < 4294967296 →
      m.state.budget.runningGlobal.toNat = m.state.countRunning (fun _ => true) ∧
      (∀ k, (m.state.budget.runningKind k).toNat =
        m.state.countRunning fun id => decide (id.kind = k)) ∧
      ∀ scope, (m.state.budget.runningScope scope).toNat =
        m.state.countRunning fun id => decide (id.scope = scope)) ∧
    ∀ log, log <:+ m.log → ∀ d c, b.cap d = some c → heldIn d (executing log) ≤ c.toNat := by
  intro m
  have hstart := (Sequential.start w (InProcessScheduler.new tool)).step
    (c := .installBudget b) ⟨rfl, rfl⟩
  obtain ⟨hm, hrest⟩ := runCalls_withinBudget hcalls hstart ⟨rfl, rfl⟩ (WithinBudget.install hidle tool)
  refine ⟨fun hsize => ?_, hm.capped⟩
  have hcounters := fun d => hm.counters hrest d (.inr hsize)
  exact ⟨hcounters .global, fun k => hcounters (.kind k), fun scope => hcounters (.scope scope)⟩

/-- One slot, which the first job gives back and the second one gets. -/
theorem budget_counts_running_oneSlot :
    let m := runCalls Sample.world (.installBudget Sample.oneSlot :: Sample.onceOn Sample.pair .ok .ok)
      (InProcessScheduler.new "t").start
    m.state.phase (Sample.jobId "a") = .succeeded ∧ m.state.phase (Sample.jobId "b") = .running ∧
    m.state.budget.runningGlobal.toNat = m.state.countRunning (fun _ => true) ∧
    ∀ log, log <:+ m.log → heldIn .global (executing log) ≤ 1 := by
  have hidle : Sample.oneSlot.Idle := fun d => by cases d <;> rfl
  have hcalls : ∀ call ∈ Sample.onceOn Sample.pair .ok .ok, call.ordinary = true := by decide
  have hsafe := budget_counts_running Sample.world "t" hidle hcalls
  refine ⟨by decide +kernel, by decide +kernel, (hsafe.1 (by decide +kernel)).1, ?_⟩
  exact fun log hlog => hsafe.2 log hlog .global 1 rfl

end Shigoto
