import Shigoto.Scheduler.Sequential
import Shigoto.Scheduler.Slots

/-!
# From PASS 1 to the results

When no execution panics, every task yields a result. A job that PASS 1 of a wave has made Running is
then executed by PASS 2 of the same wave, and its result is applied (`View.expects_next`). A job that
becomes Running any later is left behind.
-/

namespace Shigoto

open Atomic BudgetTree

variable {w : World} {v : View} {s : InProcessScheduler} {c : Cmd}

/-! ## Panics -/

/-- Every spawned task yields a result. -/
def Focus.Complete (focus : Focus) : Prop := ∀ task ∈ focus.spawned, task.result.isSome = true

theorem Focus.Complete.next (h : v.focus.Complete) (hallows : v.Allows c) {t : Nat}
    (hpanic : panics w ⟨t, c, s⟩ = false) : (v.next c (handle w c s).1).focus.Complete := by
  cases hworks : c.works with
  | false => rwa [Complete, (View.sameWork_next hallows hworks).2.1]
  | true =>
    cases c with
    | spawn id job timeout =>
      rw [Complete, (View.work_spawn hallows _).2.1]
      intro task htask
      rcases List.mem_append.mp htask with hbefore | hnew
      · exact h task hbefore
      · obtain rfl := List.mem_singleton.mp hnew
        simpa [panics] using hpanic
    | runningOf wave => cases hids : (handle w (.runningOf wave) s).1 <;> simp [Complete, View.next, spawned]
    | join tasks => simp [Complete, View.next, spawned]
    | dispatch id signal =>
      cases (handle w (.dispatch id signal) s).1 with
      | ok event =>
        rw [Complete, show (v.next (.dispatch id signal) (.ok event)).focus = v.focus.dispatched from rfl,
          (Due.spawned hallows).2]
        simp
      | error e => simp [Complete, View.next, spawned]
    | release id => rwa [Complete, (View.work_release hallows _).2.1]
    | _ => simp [Cmd.works] at hworks

/-- Complete tasks give one result each. -/
theorem yield_ids_perm {tasks : List Task} (h : ∀ task ∈ tasks, task.result.isSome = true)
    {results : List (JobId × ExecResult)} (hresults : results.Perm (tasks.filterMap Task.yield)) :
    (results.map (·.1)).Perm (tasks.map (·.id)) := by
  have hids : ∀ tasks : List Task, (∀ task ∈ tasks, task.result.isSome = true) →
      (tasks.filterMap Task.yield).map (·.1) = tasks.map (·.id) := by
    intro tasks
    induction tasks with
    | nil => exact fun _ => rfl
    | cons task tasks ih =>
      intro h
      obtain ⟨result, hresult⟩ := Option.isSome_iff_exists.mp (h task List.mem_cons_self)
      have hyield : task.yield = some (task.id, result) := by rw [Task.yield, hresult]; rfl
      rw [List.filterMap_cons_some hyield, List.map_cons, List.map_cons,
        ih fun task' htask' => h task' (List.mem_cons_of_mem _ htask')]
  rw [← hids tasks h]
  exact hresults.map _

/-- When nothing panics, awaiting the tasks moves them from spawned to unapplied. -/
theorem View.mem_executed_join {tasks : List Task} (hallows : v.Allows (.join tasks))
    (h : v.focus.Complete) (id : JobId) :
    id ∈ (v.next (.join tasks) (handle w (.join tasks) s).1).focus.executed ↔
      id ∈ v.focus.executed := by
  have hfocus : v.focus = .collecting [] tasks := hallows
  rw [Focus.Complete, hfocus] at h
  have hperm := yield_ids_perm h (answers_handle w (fun _ => True) (.join tasks) s)
  rw [hfocus, Focus.executed, Focus.executed]
  show id ∈ [] ++ _ ↔ id ∈ tasks.map (·.id) ++ []
  rw [List.nil_append, List.append_nil]
  exact hperm.mem_iff

/-! ## The Running jobs a caller takes care of -/

/-- PASS 2 has the job in flight, or is going to collect it. -/
def View.Expects (v : View) (id : JobId) : Prop :=
  id ∈ v.focus.flight ∨ (v.pass.final = false ∧ id ∈ v.pass.seeded)

theorem View.not_expects_of_resting (h : v.Resting) (id : JobId) : ¬ v.Expects id := by
  rintro (hflight | ⟨hfinal, -⟩)
  · rw [Focus.flight_of_idle h.1] at hflight
    exact List.not_mem_nil hflight
  · exact Bool.noConfusion (h.2.symm.trans hfinal)

/-- Commands that do not change the pass. -/
theorem View.pass_next {r : c.Resp} (hwaves : ∀ dag, c ≠ .waves dag) (hseed : ∀ id, c ≠ .seed id)
    (hrunning : ∀ wave, c ≠ .runningOf wave) : (v.next c r).pass = v.pass := by
  obtain ⟨pass, focus⟩ := v
  cases c with
  | waves dag => exact absurd rfl (hwaves dag)
  | seed id => exact absurd rfl (hseed id)
  | runningOf wave => exact absurd rfl (hrunning wave)
  | readGates id => cases focus <;> rfl
  | consult gate ctx =>
    cases focus with
    | consulting id phase ctx ahead outcomes => cases ahead <;> rfl
    | _ => rfl
  | dispatch id signal => cases r <;> rfl
  | tryAllocate id => cases r <;> rfl
  | lookupJob id =>
    cases focus with
    | collecting ids tasks => cases ids <;> rfl
    | _ => rfl
  | spawn id job timeout => cases focus <;> rfl
  | recordFailure id =>
    cases focus with
    | applying results => cases results <;> rfl
    | _ => rfl
  | clearFailures id => cases focus <;> rfl
  | release id => cases focus <;> rfl
  | overwrite id phase => cases focus <;> rfl
  | _ => rfl

/-- The result of an execution takes its job out of Running. -/
theorem not_running_of_result {id : JobId} {signal : Signal} {target : JobPhase}
    (hsignal : signal = .executionSucceeded ∨ signal = .executionFailed)
    (hadvance : advance (s.phase id) signal = .ok target) : target ≠ .running := by
  rcases hsignal with rfl | rfl
  · obtain ⟨-, rfl⟩ := advance_executionSucceeded_iff.mp hadvance
    simp
  · obtain ⟨-, rfl⟩ := advance_executionFailed_iff.mp hadvance
    simp

/-- A job in flight stays in flight until it is not Running any more. -/
theorem View.flight_stays (hallows : v.Allows c) (hlands : c.Lands s) (hcomplete : v.focus.Complete)
    (hc : ∀ wave, c ≠ .runningOf wave) {id : JobId}
    (hafter : (handle w c s).2.phase id = .running) (h : id ∈ v.focus.flight) :
    id ∈ (v.next c (handle w c s).1).focus.flight := by
  cases hworks : c.works with
  | false => rwa [(View.sameWork_next hallows hworks).flight]
  | true =>
    cases c with
    | runningOf wave => exact absurd rfl (hc wave)
    | spawn id' job timeout =>
      obtain ⟨hahead, hspawned, hunapplied, -⟩ :=
        View.work_spawn hallows (handle w (.spawn id' job timeout) s).1
      have hid : (handle w (.spawn id' job timeout) s).1.id = id' := by cases job <;> rfl
      rw [Focus.flight_eq, Focus.executed, hahead] at h
      rw [Focus.flight_eq, Focus.executed, hspawned, hunapplied, List.map_append, List.map_singleton, hid]
      simp only [List.mem_append, List.mem_cons] at h ⊢
      tauto
    | join tasks =>
      have hahead : v.focus.ahead = [] := by rw [show v.focus = _ from hallows]; rfl
      rw [Focus.flight_eq, hahead, List.nil_append] at h
      rw [Focus.flight_eq]
      exact List.mem_append_right _ ((View.mem_executed_join hallows hcomplete id).mpr h)
    | dispatch id' signal =>
      obtain ⟨target, hadvance⟩ := hlands
      have hanswer := answer_dispatch_ok w hadvance
      rw [hanswer]
      rcases Due.flight_dispatched hallows with ⟨hnil, -⟩ | ⟨hsignal, hcons⟩
      · rw [hnil] at h
        exact absurd h List.not_mem_nil
      · rw [hcons] at h
        rcases List.mem_cons.mp h with rfl | hrest
        · rw [phase_dispatch_ok w hadvance, if_pos rfl] at hafter
          exact absurd hafter (not_running_of_result hsignal hadvance)
        · exact hrest
    | release id' =>
      obtain ⟨hahead, hspawned, hunapplied, -⟩ := View.work_release hallows (handle w (.release id') s).1
      rwa [Focus.flight_eq, Focus.executed, hahead, hspawned, hunapplied, ← Focus.executed,
        ← Focus.flight_eq]
    | _ => simp [Cmd.works] at hworks

/-- Only its spawn adds a Running job to those executed. -/
theorem View.mem_executed_next (hallows : v.Allows c) (hlands : c.Lands s)
    (hcomplete : v.focus.Complete) {id : JobId} (hspawn : ∀ job timeout, c ≠ .spawn id job timeout)
    (hafter : (handle w c s).2.phase id = .running) :
    id ∈ (v.next c (handle w c s).1).focus.executed ↔ id ∈ v.focus.executed := by
  cases hworks : c.works with
  | false => rw [(View.sameWork_next hallows hworks).executed]
  | true =>
    cases c with
    | runningOf wave =>
      rw [(Focus.sameWork_rest hallows.1).executed]
      cases (handle w (.runningOf wave) s).1 <;> exact Iff.rfl
    | spawn id' job timeout =>
      obtain ⟨-, hspawned, hunapplied, -⟩ :=
        View.work_spawn hallows (handle w (.spawn id' job timeout) s).1
      have hid : (handle w (.spawn id' job timeout) s).1.id = id' := by cases job <;> rfl
      have hne : id ≠ id' := fun h => hspawn job timeout (by rw [h])
      simp [Focus.executed, hspawned, hunapplied, hid, hne]
    | join tasks => exact View.mem_executed_join hallows hcomplete id
    | dispatch id' signal =>
      obtain ⟨target, hadvance⟩ := hlands
      rw [answer_dispatch_ok w hadvance]
      show id ∈ v.focus.dispatched.executed ↔ _
      rcases Due.work_dispatched hallows with ⟨hbefore, hdone⟩ | ⟨hsignal, -, hcons, -⟩
      · rw [hbefore.executed, hdone.executed]
      · have hne : id ≠ id' := by
          rintro rfl
          rw [phase_dispatch_ok w hadvance, if_pos rfl] at hafter
          exact not_running_of_result hsignal hadvance hafter
        simp [hcons, hne]
    | release id' =>
      obtain ⟨-, hspawned, hunapplied, -⟩ := View.work_release hallows (handle w (.release id') s).1
      rw [Focus.executed, hspawned, hunapplied, ← Focus.executed]
    | _ => simp [Cmd.works] at hworks

/-- **A Running job that is taken care of stays taken care of** until it is not Running any more. -/
theorem View.expects_next (hallows : v.Allows c) (hlands : c.Lands s) (hcomplete : v.focus.Complete)
    {id : JobId} (hbefore : s.phase id = .running)
    (hafter : (handle w c s).2.phase id = .running) (h : v.Expects id) :
    (v.next c (handle w c s).1).Expects id := by
  have hnotResting : ¬ v.Resting := fun hrest => View.not_expects_of_resting hrest id h
  by_cases hwaves : ∃ dag, c = .waves dag
  · obtain ⟨dag, rfl⟩ := hwaves
    exact absurd hallows hnotResting
  · by_cases hseed : ∃ id', c = .seed id'
    · obtain ⟨id', rfl⟩ := hseed
      rcases h with hflight | ⟨hfinal, hseeded⟩
      · rw [Focus.flight_of_idle hallows] at hflight
        exact absurd hflight List.not_mem_nil
      · right
        simp [View.next, Pass.seed, hfinal, hseeded]
    · by_cases hcollect : ∃ wave, c = .runningOf wave
      · obtain ⟨wave, rfl⟩ := hcollect
        obtain ⟨hidle, -, hwave⟩ := hallows
        rcases h with hflight | ⟨hfinal, hseeded⟩
        · rw [Focus.flight_of_idle hidle] at hflight
          exact absurd hflight List.not_mem_nil
        · left
          rw [View.flight_runningOf]
          exact mem_runningOf.mpr ⟨hwave hfinal id hseeded, hbefore⟩
      · have hpass : (v.next c (handle w c s).1).pass = v.pass :=
          View.pass_next (fun dag hdag => hwaves ⟨dag, hdag⟩) (fun id' hid' => hseed ⟨id', hid'⟩)
            fun wave hwave => hcollect ⟨wave, hwave⟩
        rcases h with hflight | hseeded
        · exact .inl (View.flight_stays hallows hlands hcomplete
            (fun wave hwave => hcollect ⟨wave, hwave⟩) hafter hflight)
        · right
          rwa [hpass]

/-! ## Starts -/

/-- A job that becomes Running is handed its slot by the caller. -/
theorem View.granted_of_started {v : View} {s : InProcessScheduler} {c : Cmd} (hallows : v.Allows c)
    (hrestore : ∀ saved, c ≠ .restoreState saved) {id : JobId} (hbefore : s.phase id ≠ .running)
    (hafter : (handle w c s).2.phase id = .running) :
    v.focus = .granted id ∧ c = .dispatch id .allocateBudget ∧
      (v.pass.final = false → id ∈ v.pass.seeded) := by
  rcases phase_handle w c s id with hsame | ⟨signal, rfl, hadvance⟩ | hoverwrite | ⟨saved, rfl⟩
  · exact absurd (hsame.symm.trans hafter) hbefore
  · rw [hafter] at hadvance
    obtain ⟨pass, focus⟩ := v
    have hdue : Due pass id focus signal := hallows
    cases hdue with
    | slot seeded => exact ⟨rfl, rfl, seeded⟩
    | gates phase ctx outcomes news =>
      obtain ⟨-, h⟩ := advance_evaluateGates_iff.mp hadvance
      cases hagg : cohortAggregate ctx outcomes <;> rw [hagg] at h <;> simp [GateAggregate.phase] at h
    | backoff untilMs nowMs elapsed => simp [advance_backoffElapsed_iff] at hadvance
    | retry outcome =>
      obtain ⟨-, h⟩ := advance_retryDecide_iff.mp hadvance
      cases outcome <;> simp [RetryOutcome.phase] at h
    | success results => simp [advance_executionSucceeded_iff] at hadvance
    | failure results => simp [advance_executionFailed_iff] at hadvance
  · rw [hoverwrite] at hallows
    obtain ⟨source, -, hadvance⟩ := hallows
    rw [hafter] at hadvance
    obtain ⟨-, ⟨-, h | ⟨reason, h⟩⟩ | ⟨-, h⟩⟩ := advance_operatorTransition hadvance <;> simp at h
  · exact absurd rfl (hrestore saved)

/-- A slot is handed over only after it was asked for and granted. -/
theorem View.granted_next {v : View} {s : InProcessScheduler} {c : Cmd} (hallows : v.Allows c)
    {id : JobId} (h : (v.next c (handle w c s).1).focus = .granted id) :
    c = .tryAllocate id ∧ s.budget.HasSlack id := by
  have hleads := (View.leadsTo_next (r := (handle w c s).1) hallows).resolve_left
    (by simp [h, Focus.idle])
  rw [h] at hleads
  cases c with
  | tryAllocate id' =>
    obtain rfl : id = id' := by simpa [Cmd.LeadsTo] using hleads
    refine ⟨rfl, (tryAllocate_ok_iff s.budget id).mp ?_⟩
    cases hanswer : (s.budget.tryAllocate id).1 with
    | ok u => rfl
    | error e =>
      rw [show (handle w (.tryAllocate id) s).1 = .error e from hanswer] at h
      simp [View.next] at h
  | _ => simp [Cmd.LeadsTo] at hleads

/-- PASS 3 comes to a Ready job, and there is a slot for it. -/
def lateGrant (w : World) (e : SchedEvent) (past : List SchedEvent) : Bool :=
  match e.cmd with
  | .tryAllocate id => (viewOf w e.tid past).pass.final && decide (e.pre.budget.HasSlack id)
  | _ => false

end Shigoto
