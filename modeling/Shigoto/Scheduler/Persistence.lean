import Shigoto.Scheduler.Journal
import Shigoto.Scheduler.Restart

/-!
# Snapshots taken while a tick runs

A persistence task may ask for a snapshot between any two commands of a tick. The phase of a job and
its failure count are written under different locks: a failed execution is counted before the job
leaves Running, and a success is recorded before the count is cleared. `Reckoned` says how far the
counters are from the events at each point. It follows that a snapshot agrees with the events unless
the last command of the tick was the first of these two writes (`HalfApplied`).
-/

namespace Shigoto

open Atomic

variable {w : World}

/-! ## Failures in the events -/

/-- How one event changes the count of a job's failures. -/
def countFailure (id : JobId) (n : Nat) (e : TransitionEvent) : Nat :=
  if e.jobId = id then
    if e.target = .succeeded then 0
    else if e.source = .running ∧ e.target.isFailed = true then n + 1
    else n
  else n

/-- The transitions of `id` from Running to Failed since it last succeeded. -/
def failuresSince (id : JobId) (events : List TransitionEvent) : Nat :=
  events.foldl (countFailure id) 0

theorem failuresSince_snoc (id : JobId) (events : List TransitionEvent) (e : TransitionEvent) :
    failuresSince id (events ++ [e]) = countFailure id (failuresSince id events) e := by
  simp [failuresSince]

theorem countFailure_of_ne {id : JobId} {e : TransitionEvent} (h : e.jobId ≠ id) (n : Nat) :
    countFailure id n e = n := if_neg h

/-- An event that neither ends in a success nor leaves Running counts nothing. -/
theorem countFailure_of_quiet {e : TransitionEvent} (hsource : e.source ≠ .running)
    (htarget : e.target ≠ .succeeded) (id : JobId) (n : Nat) : countFailure id n e = n := by
  simp [countFailure, hsource, htarget]

/-! ## What a snapshot should say -/

/-- The attempt count of `id` in a new scheduler that takes over the snapshot. -/
def SchedulerSnapshot.restarted (saved : SchedulerSnapshot) (tool : String) (id : JobId) : UInt32 :=
  ((((InProcessScheduler.new tool).state.restoreAll saved.jobs).attempts.get? id).getD 0)

/-- The snapshot carries exactly the failures of `job` that the events show, and a restart from it
counts on from there. -/
structure SchedulerSnapshot.Faithful (saved : SchedulerSnapshot) (events : List TransitionEvent)
    (job : StoredJobState) : Prop where
  attempts : job.attempts.toNat = failuresSince job.id events
  succeeded : job.phase = .succeeded → job.attempts = 0 ∧ job.failureHistory = []
  restarted : ∀ tool, (saved.restarted tool job.id).toNat = failuresSince job.id events

/-- The last command of the tick in a log. -/
def latest (log : List SchedEvent) : Option SchedEvent := log.find? fun e => e.tid = 0

/-- `e` is the first of the two writes that a result of `id` makes, and the other one will change
what a snapshot says. -/
def HalfApplied (id : JobId) (e : SchedEvent) : Prop :=
  e.cmd = .recordFailure id ∨
  e.cmd = .dispatch id .executionSucceeded ∧ failuresSince id e.pre.emitted ≠ 0

/-- A restart from a snapshot counts on from what the snapshot says. -/
theorem restarted_project {rank : JobId → Nat} {phases : Map JobId JobPhase}
    {attempts : Map JobId UInt32} {failureHistory : Map JobId (List FailureRecord)}
    {job : StoredJobState} (hjob : job ∈ (project rank phases attempts failureHistory).jobs)
    (tool : String) :
    (project rank phases attempts failureHistory).restarted tool job.id = job.attempts := by
  have hnodup := project_ids_nodup rank phases attempts failureHistory
  have hrestored := (restoreAll_of_mem (InProcessScheduler.new tool).state hnodup hjob).2.1
  rw [SchedulerSnapshot.restarted, hrestored]
  by_cases hzero : job.attempts = 0
  · simp [hzero, InProcessScheduler.new]
  · simp [UInt32.pos_iff_ne_zero.mpr hzero]

/-! ## Where the two writes stand in a tick -/

section

variable {v : View} {c : Cmd} {id : JobId} {results : List (JobId × ExecResult)}

/-- The focus says which write of a result came last. -/
theorem View.recorded_next {r : c.Resp} (hallows : v.Allows c) :
    (∃ results, (v.next c r).focus = .recorded id results) ↔ c = .recordFailure id := by
  constructor
  · rintro ⟨results, hfocus⟩
    exact View.recordFailure_of_recorded hallows hfocus
  · rintro rfl
    obtain ⟨results, hfocus⟩ : ∃ results, v.focus = .applying ((id, .error ()) :: results) := hallows
    exact ⟨results, by simp [View.next, hfocus]⟩

theorem View.succeeded_next {s : InProcessScheduler} (hs : v.Sound s) (hallows : v.Allows c) :
    (∃ results, (v.next c (handle w c s).1).focus = .succeeded id results) ↔
      c = .dispatch id .executionSucceeded := by
  constructor
  · rintro ⟨results, hfocus⟩
    have hleads := (View.leadsTo_next (r := (handle w c s).1) hallows).resolve_left
      (by simp [hfocus, Focus.idle])
    rw [hfocus] at hleads
    cases c with
    | dispatch id' signal =>
      obtain ⟨target, hadvance⟩ := hs.advance hallows
      have hdue : Due v.pass id' v.focus signal := hallows
      obtain ⟨pass, focus⟩ := v
      rw [answer_dispatch_ok w hadvance] at hfocus
      have hdispatched : focus.dispatched = .succeeded id results := hfocus
      cases hdue with
      | success results' =>
        obtain ⟨rfl, -⟩ := Focus.succeeded.inj hdispatched
        rfl
      | _ => exact Focus.noConfusion hdispatched
    | _ => simp [Cmd.LeadsTo] at hleads
  · rintro rfl
    obtain ⟨target, hadvance⟩ := hs.advance hallows
    have hdue : Due v.pass id v.focus .executionSucceeded := hallows
    obtain ⟨pass, focus⟩ := v
    rw [answer_dispatch_ok w hadvance]
    cases hdue with
    | success results => exact ⟨results, rfl⟩

end

/-! ## The counters -/

/-- The counters of `id` stand for `k` failures. -/
structure SchedulerState.Counts (state : SchedulerState) (id : JobId) (k : Nat) : Prop where
  attempts : (state.attempts.get? id).getD 0 = UInt32.ofNat k
  failureHistory : (state.failureHistory.get? id).getD [] = [] ↔ k = 0

/-- The failures that the counters of `id` stand for, where the events show `n` of them and showed
`before` of them before the last command of the tick. -/
def Focus.counted (focus : Focus) (id : JobId) (n before : Nat) : Nat :=
  match focus with
  | .recorded id' _ => if id' = id then n + 1 else n
  | .succeeded id' _ => if id' = id then before else n
  | _ => n

theorem Focus.counted_of_plain {focus : Focus} {id : JobId}
    (hrecorded : ¬ ∃ results, focus = .recorded id results)
    (hsucceeded : ¬ ∃ results, focus = .succeeded id results) (n before : Nat) :
    focus.counted id n before = n := by
  cases focus with
  | recorded id' results =>
    refine if_neg fun hid => hrecorded ⟨results, ?_⟩
    rw [hid]
  | succeeded id' results =>
    refine if_neg fun hid => hsucceeded ⟨results, ?_⟩
    rw [hid]
  | _ => rfl

/-- The events before the last command of the tick. -/
def emittedBefore (log : List SchedEvent) : List TransitionEvent :=
  match latest log with
  | some e => e.pre.emitted
  | none => []

/-- How far the counters are from the events. -/
structure Reckoned (w : World) (m : SchedMachine) : Prop where
  counts : ∀ id, m.state.state.Counts id ((viewOf w 0 m.log).focus.counted id
    (failuresSince id m.state.emitted) (failuresSince id (emittedBefore m.log)))
  /-- A job that has succeeded has no failures since. -/
  cleared : ∀ id, m.state.phase id = .succeeded → failuresSince id m.state.emitted = 0
  /-- An operator moves no running job, and none to Succeeded. -/
  moved : ∀ id source target, (viewOf w 0 m.log).focus = .moved id source target →
    source ≠ .running ∧ target ≠ .succeeded
  recorded : ∀ id, (∃ results, (viewOf w 0 m.log).focus = .recorded id results) ↔
    ∃ e, latest m.log = some e ∧ e.cmd = .recordFailure id
  succeeded : ∀ id, (∃ results, (viewOf w 0 m.log).focus = .succeeded id results) ↔
    ∃ e, latest m.log = some e ∧ e.cmd = .dispatch id .executionSucceeded

/-! ### One command of the tick -/

section

variable {m : SchedMachine} {c : Cmd}

/-- Before a command that is neither write of a result, the counters agree with the events. -/
theorem Reckoned.plain (h : Reckoned w m) (hallows : (viewOf w 0 m.log).Allows c) {id : JobId}
    (hfailed : c ≠ .dispatch id .executionFailed) (hclear : c ≠ .clearFailures id) :
    m.state.state.Counts id (failuresSince id m.state.emitted) := by
  have hcounts := h.counts id
  rwa [Focus.counted_of_plain] at hcounts
  · rintro ⟨results, hfocus⟩
    exact hfailed (hallows.dispatch_of_recorded hfocus)
  · rintro ⟨results, hfocus⟩
    exact hclear (hallows.clearFailures_of_succeeded hfocus)

/-- What the counters stand for after a command that is not the first write of a result. -/
theorem Sequential.counted_step (hs : Sequential w m) (hallows : (viewOf w 0 m.log).Allows c)
    {id : JobId} (hrecord : c ≠ .recordFailure id) (hsuccess : c ≠ .dispatch id .executionSucceeded)
    (n before : Nat) :
    (viewOf w 0 (m.step (handle w) 0 c).log).focus.counted id n before = n := by
  rw [viewOf_step_self]
  refine Focus.counted_of_plain (fun hfocus => hrecord ?_) (fun hfocus => hsuccess ?_) n before
  · exact (View.recorded_next hallows).mp hfocus
  · exact (View.succeeded_next hs hallows).mp hfocus

theorem SchedulerState.Counts.congr {state state' : SchedulerState} {id : JobId} {k : Nat}
    (h : state.Counts id k) (hattempts : state'.attempts.get? id = state.attempts.get? id)
    (hhistory : state'.failureHistory.get? id = state.failureHistory.get? id) :
    state'.Counts id k :=
  ⟨by rw [hattempts, h.attempts], by rw [hhistory, h.failureHistory]⟩

/-- One more failure is recorded. -/
theorem SchedulerState.Counts.recordFailure {state : SchedulerState} {id : JobId} {k : Nat}
    (h : state.Counts id k) (nowMs : DateTime) : (state.recordFailure id nowMs).Counts id (k + 1) := by
  refine ⟨?_, ?_⟩
  · rw [SchedulerState.recordFailure, Map.get?_insert_self, Option.getD_some, h.attempts,
      UInt32.ofNat_add]
    rfl
  · rw [SchedulerState.recordFailure, Map.get?_insert_self, Option.getD_some]
    exact iff_of_false (capHistory_ne_nil (by simp)) (Nat.succ_ne_zero k)

/-- The event of a signal that is due counts only if it ends an execution of its job. -/
theorem failuresSince_dispatch (hs : Sequential w m) {id' : JobId} {signal : Signal}
    (hdue : Due (viewOf w 0 m.log).pass id' (viewOf w 0 m.log).focus signal) (id : JobId) :
    failuresSince id (m.step (handle w) 0 (.dispatch id' signal)).state.emitted =
      if id' = id ∧ signal = .executionSucceeded then 0
      else if id' = id ∧ signal = .executionFailed then failuresSince id m.state.emitted + 1
      else failuresSince id m.state.emitted := by
  obtain ⟨target, hadvance⟩ := View.Consistent.advance hs hdue
  rw [Machine.step, emitted_dispatch_ok w hadvance, failuresSince_snoc]
  by_cases hid : id' = id
  · subst hid
    have hevent : ∀ n, countFailure id' n (dispatchEvent w m.state id' signal target) =
        if target = .succeeded then 0
        else if m.state.phase id' = .running ∧ target.isFailed = true then n + 1 else n :=
      fun n => if_pos rfl
    rw [hevent]
    generalize (viewOf w 0 m.log).focus = focus at hdue
    cases hdue with
    | success results =>
      obtain ⟨-, rfl⟩ := advance_executionSucceeded_iff.mp hadvance
      simp
    | failure results =>
      obtain ⟨hrunning, rfl⟩ := advance_executionFailed_iff.mp hadvance
      simp [hrunning, JobPhase.isFailed]
    | gates phase ctx outcomes news =>
      -- gates are evaluated for jobs that do not run, so no execution ends here
      obtain ⟨hphase, rfl⟩ := advance_evaluateGates_iff.mp hadvance
      have hnot : m.state.phase id' ≠ .running := fun hrunning => by
        simp [hrunning, JobPhase.evaluable] at hphase
      generalize cohortAggregate ctx outcomes = aggregate
      cases aggregate <;> simp [hnot, GateAggregate.phase]
    | backoff untilMs nowMs elapsed =>
      obtain ⟨-, rfl⟩ := advance_backoffElapsed_iff.mp hadvance
      simp [JobPhase.isFailed]
    | slot seeded =>
      obtain ⟨-, rfl⟩ := advance_allocateBudget_iff.mp hadvance
      simp [JobPhase.isFailed]
    | retry outcome =>
      obtain ⟨-, rfl⟩ := advance_retryDecide_iff.mp hadvance
      cases outcome <;> simp [RetryOutcome.phase, JobPhase.isFailed]
  · rw [countFailure_of_ne (e := dispatchEvent w m.state id' signal target) hid]
    simp [hid]

/-- After the command, the counters of the job stand for its failures up to now, or before a write that is
half done. -/
def CountsNext (w : World) (m : SchedMachine) (c : Cmd) (id : JobId) : Prop :=
  (m.step (handle w) 0 c).state.state.Counts id
    ((viewOf w 0 (m.step (handle w) 0 c).log).focus.counted id
      (failuresSince id (m.step (handle w) 0 c).state.emitted)
      (failuresSince id m.state.emitted))

/-- A command that leaves the counters of the job alone. -/
theorem SchedulerState.Counts.handle {id : JobId} {k : Nat} (h : m.state.state.Counts id k)
    (hattempts : (handle w c m.state).2.state.attempts = m.state.state.attempts)
    (hhistory : (handle w c m.state).2.state.failureHistory = m.state.state.failureHistory) :
    (m.step (handle w) 0 c).state.state.Counts id k :=
  h.congr (congrArg (Map.get? · id) hattempts) (congrArg (Map.get? · id) hhistory)

/-- A command that changes neither the counters nor the events. -/
theorem Reckoned.counts_quiet (hs : Sequential w m) (h : Reckoned w m)
    (hallows : (viewOf w 0 m.log).Allows c) {id : JobId} (hemits : c.emits = false)
    (hclear : c ≠ .clearFailures id) (hrecord : c ≠ .recordFailure id)
    (hattempts : (handle w c m.state).2.state.attempts = m.state.state.attempts)
    (hhistory : (handle w c m.state).2.state.failureHistory = m.state.state.failureHistory) :
    CountsNext w m c id := by
  have hnot : ∀ signal, c ≠ .dispatch id signal := fun signal hdispatch => by
    rw [hdispatch] at hemits
    exact Bool.noConfusion hemits
  rw [CountsNext, hs.counted_step hallows hrecord (hnot _), Machine.step, emitted_of_not_emits w hemits]
  exact (h.plain hallows (hnot _) hclear).handle hattempts hhistory

theorem Reckoned.counts_recordFailure (hs : Sequential w m) (h : Reckoned w m) {id' : JobId}
    (hallows : (viewOf w 0 m.log).Allows (.recordFailure id')) (id : JobId) :
    CountsNext w m (.recordFailure id') id := by
  have hplain : m.state.state.Counts id (failuresSince id m.state.emitted) :=
    h.plain hallows (by simp) (by simp)
  by_cases hid : id' = id
  · subst hid
    -- the counters are ahead of the events until the signal of the failure is dispatched
    obtain ⟨results, hfocus⟩ := (View.recorded_next (r := ()) hallows).mpr rfl
    rw [CountsNext, viewOf_step_self, show (handle w (.recordFailure id') m.state).1 = () from rfl,
      hfocus, show Focus.counted (.recorded id' results) id' _ _ = _ from if_pos rfl]
    exact hplain.recordFailure (w.clock m.state.time)
  · have hne : Cmd.recordFailure id' ≠ .recordFailure id := fun heq => hid (Cmd.recordFailure.inj heq)
    rw [CountsNext, hs.counted_step hallows hne (by simp)]
    refine hplain.congr ?_ ?_
    · exact Map.get?_insert_ne m.state.state.attempts _ (Ne.symm hid)
    · exact Map.get?_insert_ne m.state.state.failureHistory _ (Ne.symm hid)

theorem Reckoned.counts_clearFailures (hs : Sequential w m) (h : Reckoned w m) {id' : JobId}
    (hallows : (viewOf w 0 m.log).Allows (.clearFailures id')) (id : JobId) :
    CountsNext w m (.clearFailures id') id := by
  have hfailures := Prod.mk.inj (failures_handle w (.clearFailures id') m.state)
  rw [CountsNext, hs.counted_step hallows (by simp) (by simp)]
  by_cases hid : id' = id
  · subst hid
    obtain ⟨results, hfocus⟩ : ∃ results, (viewOf w 0 m.log).focus = .succeeded id' results := hallows
    have hphase : m.state.phase id' = .succeeded := by
      have hagrees := hs.agrees
      rwa [hfocus] at hagrees
    rw [show failuresSince id' (m.step (handle w) 0 (.clearFailures id')).state.emitted = 0 from
      h.cleared id' hphase]
    refine ⟨?_, ?_⟩
    · rw [Machine.step, hfailures.1, Map.get?_erase_self]
      rfl
    · rw [Machine.step, hfailures.2, Map.get?_erase_self]
      simp
  · have hne : Cmd.clearFailures id' ≠ .clearFailures id := fun heq => hid (Cmd.clearFailures.inj heq)
    refine (h.plain hallows (by simp) hne).congr ?_ ?_
    · rw [Machine.step, hfailures.1, Map.get?_erase_ne m.state.state.attempts (Ne.symm hid)]
    · rw [Machine.step, hfailures.2, Map.get?_erase_ne m.state.state.failureHistory (Ne.symm hid)]

theorem Reckoned.counts_dispatch (hs : Sequential w m) (h : Reckoned w m) {id' : JobId} {signal : Signal}
    (hallows : (viewOf w 0 m.log).Allows (.dispatch id' signal)) (id : JobId) :
    CountsNext w m (.dispatch id' signal) id := by
  have hdue : Due (viewOf w 0 m.log).pass id' (viewOf w 0 m.log).focus signal := hallows
  have hfailures := Prod.mk.inj (failures_handle w (.dispatch id' signal) m.state)
  refine SchedulerState.Counts.handle ?_ hfailures.1 hfailures.2
  rw [failuresSince_dispatch hs hdue]
  by_cases hsuccess : id' = id ∧ signal = .executionSucceeded
  · obtain ⟨rfl, rfl⟩ := hsuccess
    obtain ⟨results, hfocus⟩ := (View.succeeded_next (w := w) hs hallows).mpr rfl
    rw [viewOf_step_self, hfocus, show Focus.counted (.succeeded id' results) id' _ _ = _ from if_pos rfl]
    exact h.plain hallows (by simp) (by simp)
  · have hne : Cmd.dispatch id' signal ≠ .dispatch id .executionSucceeded := fun heq =>
      hsuccess (Cmd.dispatch.inj heq)
    rw [hs.counted_step hallows (by simp) hne, if_neg hsuccess]
    by_cases hfailed : id' = id ∧ signal = .executionFailed
    · -- the event catches up with the counters
      obtain ⟨rfl, rfl⟩ := hfailed
      rw [if_pos ⟨rfl, rfl⟩]
      have hcounts := h.counts id'
      generalize (viewOf w 0 m.log).focus = focus at hdue hcounts
      cases hdue with
      | failure results =>
        rwa [show Focus.counted (.recorded id' results) id' _ _ = _ from if_pos rfl] at hcounts
    · rw [if_neg hfailed]
      exact h.plain hallows (fun heq => hfailed (Cmd.dispatch.inj heq)) (by simp)

theorem Reckoned.counts_step (hs : Sequential w m) (h : Reckoned w m)
    (hallows : (viewOf w 0 m.log).Allows c) (hc : c.Permitted Call.live (viewOf w 0 m.log).pass.dag)
    (id : JobId) : CountsNext w m c id := by
  have hfailures := Prod.mk.inj (failures_handle w c m.state)
  cases c with
  | recordFailure id' => exact h.counts_recordFailure hs hallows id
  | clearFailures id' => exact h.counts_clearFailures hs hallows id
  | dispatch id' signal => exact h.counts_dispatch hs hallows id
  | emit time id' source target reason =>
    have hmoved := h.moved id' source target hallows
    rw [CountsNext, hs.counted_step hallows (by simp) (by simp)]
    refine SchedulerState.Counts.handle ?_ hfailures.1 hfailures.2
    rw [show (m.step (handle w) 0 (.emit time id' source target reason)).state.emitted =
      m.state.emitted ++ [⟨time, id', source, target, reason, m.state.tool⟩] from rfl,
      failuresSince_snoc, countFailure_of_quiet (e := ⟨time, id', source, target, reason, m.state.tool⟩)
        hmoved.1 hmoved.2]
    exact h.plain hallows (by simp) (by simp)
  | restoreState saved => exact hc.elim
  | _ => exact h.counts_quiet hs hallows rfl (by simp) (by simp) hfailures.1 hfailures.2

/-- Only the success of its execution makes a job Succeeded. -/
theorem Due.of_succeeded {pass : Pass} {focus : Focus} {id : JobId} {signal : Signal}
    {phase : JobPhase} (hdue : Due pass id focus signal)
    (hadvance : advance phase signal = .ok .succeeded) : signal = .executionSucceeded := by
  cases hdue with
  | success results => rfl
  | failure results => simp [advance_executionFailed_iff] at hadvance
  | gates phase' ctx outcomes news =>
    have hphase := (advance_evaluateGates_iff.mp hadvance).2
    generalize cohortAggregate ctx outcomes = aggregate at hphase
    cases aggregate <;> simp [GateAggregate.phase] at hphase
  | backoff untilMs nowMs elapsed => simp [advance_backoffElapsed_iff] at hadvance
  | slot seeded => simp [advance_allocateBudget_iff] at hadvance
  | retry outcome =>
    have hphase := (advance_retryDecide_iff.mp hadvance).2
    cases outcome <;> simp [RetryOutcome.phase] at hphase

theorem Reckoned.cleared_step (hs : Sequential w m) (h : Reckoned w m)
    (hallows : (viewOf w 0 m.log).Allows c) (hc : c.Permitted Call.live (viewOf w 0 m.log).pass.dag)
    (id : JobId) (hsucceeded : (m.step (handle w) 0 c).state.phase id = .succeeded) :
    failuresSince id (m.step (handle w) 0 c).state.emitted = 0 := by
  have hquiet : c.moves = false → c.emits = false →
      failuresSince id (m.step (handle w) 0 c).state.emitted = 0 := by
    intro hmoves hemits
    rw [Machine.step, phase_of_not_moves w hmoves] at hsucceeded
    rw [Machine.step, emitted_of_not_emits w hemits]
    exact h.cleared id hsucceeded
  cases c with
  | dispatch id' signal =>
    have hdue : Due (viewOf w 0 m.log).pass id' (viewOf w 0 m.log).focus signal := hallows
    obtain ⟨target, hadvance⟩ := View.Consistent.advance hs hdue
    rw [Machine.step, phase_dispatch_ok w hadvance] at hsucceeded
    rw [failuresSince_dispatch hs hdue]
    by_cases hid : id = id'
    · subst hid
      rw [if_pos rfl] at hsucceeded
      subst hsucceeded
      simp [hdue.of_succeeded hadvance]
    · rw [if_neg hid] at hsucceeded
      simpa [Ne.symm hid] using h.cleared id hsucceeded
  | overwrite id' phase =>
    obtain ⟨source, -, hadvance⟩ := hallows
    have hphase : (m.step (handle w) 0 (.overwrite id' phase)).state.phase id =
        if id = id' then phase else m.state.phase id :=
      phaseIn_insert m.state.state.phases id' id phase
    rw [hphase] at hsucceeded
    split at hsucceeded
    · subst hsucceeded
      obtain ⟨-, hcases⟩ := advance_operatorTransition hadvance
      simp at hcases
    · exact h.cleared id hsucceeded
  | emit time id' source target reason =>
    have hmoved := h.moved id' source target hallows
    rw [show (m.step (handle w) 0 (.emit time id' source target reason)).state.emitted =
      m.state.emitted ++ [⟨time, id', source, target, reason, m.state.tool⟩] from rfl,
      failuresSince_snoc, countFailure_of_quiet (e := ⟨time, id', source, target, reason, m.state.tool⟩)
        hmoved.1 hmoved.2]
    exact h.cleared id hsucceeded
  | restoreState saved => exact hc.elim
  | _ => exact hquiet rfl rfl

theorem Reckoned.moved_step (h : Reckoned w m) (hallows : (viewOf w 0 m.log).Allows c)
    (id : JobId) (source target : JobPhase)
    (hmoved : (viewOf w 0 (m.step (handle w) 0 c).log).focus = .moved id source target) :
    source ≠ .running ∧ target ≠ .succeeded := by
  rw [viewOf_step_self] at hmoved
  cases c with
  | overwrite id' phase =>
    obtain ⟨source', hfocus, hadvance⟩ := hallows
    have hnext : ((viewOf w 0 m.log).next (.overwrite id' phase) ()).focus = .moved id' source' phase := by
      simp [View.next, hfocus]
    obtain ⟨-, rfl, rfl⟩ := Focus.moved.inj (hnext.symm.trans hmoved)
    obtain ⟨-, ⟨rfl, rfl | ⟨reason, rfl⟩⟩ | ⟨rfl, rfl⟩⟩ := advance_operatorTransition hadvance <;> simp
  | emit time id' source' target' reason => exact Focus.noConfusion hmoved
  | _ =>
    exact h.moved id source target
      ((View.moved_next hallows (by simp) (by simp) id source target).mp hmoved)

theorem latest_step (c : Cmd) (m : SchedMachine) :
    latest (m.step (handle w) 0 c).log = some ⟨0, c, m.state⟩ := rfl

/-- **One command of the tick** keeps track of how far the counters are from the events. -/
theorem Reckoned.step (hs : Sequential w m) (h : Reckoned w m)
    (hallows : (viewOf w 0 m.log).Allows c)
    (hc : c.Permitted Call.live (viewOf w 0 m.log).pass.dag) :
    Reckoned w (m.step (handle w) 0 c) where
  counts := h.counts_step hs hallows hc
  cleared := h.cleared_step hs hallows hc
  moved := h.moved_step hallows
  recorded id := by
    rw [viewOf_step_self, View.recorded_next hallows, latest_step]
    simp
  succeeded id := by
    rw [viewOf_step_self, View.succeeded_next hs hallows, latest_step]
    simp

/-- A snapshot that somebody else takes changes nothing. -/
theorem Reckoned.observe (h : Reckoned w m) {t : Nat} (ht : t ≠ 0) :
    Reckoned w (m.step (handle w) t .snapshotState) := by
  have hlatest : latest (m.step (handle w) t .snapshotState).log = latest m.log :=
    List.find?_cons_of_neg (by simpa using ht)
  have hview := viewOf_step_ne w ht .snapshotState m
  obtain ⟨hcounts, hcleared, hmoved, hrecorded, hsucceeded⟩ := h
  rw [← hview] at hcounts hmoved hrecorded hsucceeded
  rw [emittedBefore, ← hlatest] at hcounts
  rw [← hlatest] at hrecorded hsucceeded
  exact ⟨hcounts, hcleared, hmoved, hrecorded, hsucceeded⟩

theorem Reckoned.start (tool : String) : Reckoned w (InProcessScheduler.new tool).start where
  counts id := ⟨rfl, iff_of_true rfl rfl⟩
  cleared id h := JobPhase.noConfusion h
  moved id source target h := Focus.noConfusion h
  recorded id := by
    constructor
    · rintro ⟨results, hfocus⟩
      exact Focus.noConfusion hfocus
    · rintro ⟨e, he, -⟩
      cases he
  succeeded id := by
    constructor
    · rintro ⟨results, hfocus⟩
      exact Focus.noConfusion hfocus
    · rintro ⟨e, he, -⟩
      cases he

end

/-! ## Snapshots -/

/-- The tick is not half way through a result of `id`. -/
def Settled (id : JobId) (past : List SchedEvent) : Prop := ∀ e, latest past = some e → ¬ HalfApplied id e

/-- Between the two writes of a result of `id` its counters are off; elsewhere they agree with the
events. -/
theorem Reckoned.counted_cases {m : SchedMachine} (hs : Sequential w m) (h : Reckoned w m) (id : JobId) :
    (Settled id m.log ∧ m.state.state.Counts id (failuresSince id m.state.emitted)) ∨
    (¬ Settled id m.log ∧ m.state.state.Counts id (failuresSince id m.state.emitted + 1)) ∨
    ¬ Settled id m.log ∧ m.state.phase id = .succeeded ∧
      ∃ before, before ≠ 0 ∧ m.state.state.Counts id before := by
  have hcounts := h.counts id
  by_cases hrecorded : ∃ results, (viewOf w 0 m.log).focus = .recorded id results
  · obtain ⟨e, hlatest, hcmd⟩ := (h.recorded id).mp hrecorded
    obtain ⟨results, hfocus⟩ := hrecorded
    rw [hfocus, show Focus.counted (.recorded id results) id _ _ = _ from if_pos rfl] at hcounts
    exact .inr (.inl ⟨fun hsettled => hsettled e hlatest (.inl hcmd), hcounts⟩)
  by_cases hsucceeded : ∃ results, (viewOf w 0 m.log).focus = .succeeded id results
  · obtain ⟨e, hlatest, hcmd⟩ := (h.succeeded id).mp hsucceeded
    obtain ⟨results, hfocus⟩ := hsucceeded
    have hphase : m.state.phase id = .succeeded := by
      have hagrees := hs.agrees
      rwa [hfocus] at hagrees
    have hbefore : emittedBefore m.log = e.pre.emitted := by rw [emittedBefore, hlatest]
    rw [hfocus, show Focus.counted (.succeeded id results) id _ _ = _ from if_pos rfl, hbefore] at hcounts
    by_cases hzero : failuresSince id e.pre.emitted = 0
    · -- the job had no failures, so there is nothing to clear
      left
      rw [h.cleared id hphase, ← hzero]
      refine ⟨fun e' hlatest' => ?_, hcounts⟩
      obtain rfl := Option.some.inj (hlatest.symm.trans hlatest')
      rintro (hrecord | ⟨-, hne⟩)
      · rw [hcmd] at hrecord
        exact Cmd.noConfusion hrecord
      · exact hne hzero
    · exact .inr (.inr ⟨fun hsettled => hsettled e hlatest (.inr ⟨hcmd, hzero⟩), hphase, _, hzero, hcounts⟩)
  · left
    rw [Focus.counted_of_plain hrecorded hsucceeded] at hcounts
    refine ⟨fun e hlatest => ?_, hcounts⟩
    rintro (hrecord | ⟨hsuccess, -⟩)
    · exact hrecorded ((h.recorded id).mpr ⟨e, hlatest, hrecord⟩)
    · exact hsucceeded ((h.succeeded id).mpr ⟨e, hlatest, hsuccess⟩)

/-- The snapshot of event `e` is faithful to the events about a job exactly when the tick is not half
way through a result of the job, and its failures fit into the counter. -/
def FaithfulIff (w : World) (e : SchedEvent) (past : List SchedEvent) : Prop :=
  e.cmd = .snapshotState → ∀ job ∈ (takenBy w e).jobs,
    ((takenBy w e).Faithful e.pre.emitted job ↔
      Settled job.id past ∧ failuresSince job.id e.pre.emitted < 4294967296)

theorem Reckoned.faithfulIff {m : SchedMachine} (hs : Sequential w m) (h : Reckoned w m) (t : Nat)
    (c : Cmd) : FaithfulIff w ⟨t, c, m.state⟩ m.log := by
  intro _ job hjob
  have hrestarted : ∀ tool, (takenBy w ⟨t, c, m.state⟩).restarted tool job.id = job.attempts :=
    restarted_project hjob
  obtain ⟨hphase, hattempts, hhistory⟩ := mem_project.mp hjob
  have hstored : m.state.phase job.id = job.phase := by simp [InProcessScheduler.phase, phaseIn, hphase]
  rcases h.counted_cases hs job.id with ⟨hsettled, hcounts⟩ | ⟨hhalf, hcounts⟩ |
      ⟨hhalf, hsucceeded, before, hne, hcounts⟩
  · have htoNat : job.attempts.toNat = failuresSince job.id m.state.emitted % 4294967296 := by
      rw [hattempts, hcounts.attempts, UInt32.toNat_ofNat']
    constructor
    · intro hfaithful
      have hequal := hfaithful.attempts
      exact ⟨hsettled, by dsimp only at hequal ⊢; omega⟩
    · rintro ⟨-, hsmall⟩
      have hequal := htoNat.trans (Nat.mod_eq_of_lt hsmall)
      refine ⟨hequal, fun hdone => ?_, fun tool => by rw [hrestarted, hequal]⟩
      have hzero := h.cleared job.id (hstored.trans hdone)
      rw [hzero] at hcounts
      exact ⟨hattempts.trans hcounts.attempts, hhistory.trans (hcounts.failureHistory.mpr rfl)⟩
  · have htoNat : job.attempts.toNat = (failuresSince job.id m.state.emitted + 1) % 4294967296 := by
      rw [hattempts, hcounts.attempts, UInt32.toNat_ofNat']
    refine iff_of_false (fun hfaithful => ?_) fun hboth => hhalf hboth.1
    have hequal := hfaithful.attempts
    dsimp only at hequal
    omega
  · refine iff_of_false (fun hfaithful => ?_) fun hboth => hhalf hboth.1
    have hempty := (hfaithful.succeeded (hstored.symm.trans hsucceeded)).2
    exact hne (hcounts.failureHistory.mp (hhistory.symm.trans hempty))

/-! ## The result -/

/-- One tick, and others who take `n` snapshots meanwhile. -/
def tickObserved (dag : Dag) (n : Nat) (m : SchedMachine) :
    Config schedInterface InProcessScheduler SchedulerError Unit :=
  ⟨m, (Call.tick dag).prog :: List.replicate n Call.snapshotState.prog⟩

/-- Caller 0 ticks; the others only take snapshots. -/
def observedProtocol : Nat → Protocol schedInterface
  | 0 => callProtocol Call.live
  | _ + 1 => ⟨fun _ c => c = .snapshotState, fun _ _ => True⟩

/-- **Snapshots during a tick.** Whatever calls came before (restores apart) and however snapshots are
interleaved with a running tick, each snapshot is faithful to the events about exactly those jobs for
which the tick is not between the two writes of a result. -/
theorem snapshots_faithful_iff (w : World) (tool : String) {calls : List Call}
    (hcalls : ∀ call ∈ calls, call.live) (dag : Dag) (n : Nat) (schedule : List Nat) :
    let m := runCalls w calls (InProcessScheduler.new tool).start
    ∀ e past, (e :: past) <:+ ((tickObserved dag n m).run (handle w) schedule).machine.log →
      e.cmd = .snapshotState → ∀ job ∈ (takenBy w e).jobs,
        ((takenBy w e).Faithful e.pre.emitted job ↔
          Settled job.id past ∧ failuresSince job.id e.pre.emitted < 4294967296) := by
  intro m
  obtain ⟨⟨hcounting, hmeets⟩, hs, hrest⟩ := runCalls_induct
    (J := fun m => Reckoned w m ∧ Meets (FaithfulIff w) m.log)
    (fun m c hs hJ hallows hc => ⟨hJ.1.step hs hallows hc,
      meets_cons.mpr ⟨hJ.1.faithfulIff hs 0 c, hJ.2⟩⟩) hcalls
    (Sequential.start w (InProcessScheduler.new tool)) (Resting.start w _)
    ⟨Reckoned.start tool, meets_nil _⟩
  have hrun := Config.run_induct (handle w) observedProtocol (fun _ _ _ => True) (fun _ _ _ => True)
    (fun m => (Sequential w m ∧ Reckoned w m) ∧ Meets (FaithfulIff w) m.log)
    (fun t c s => ?_) (fun t m c hJ hallows => ?_) schedule (c := tickObserved dag n m)
    (fun t p hp => ?_) ⟨⟨hs, hcounting⟩, hmeets⟩
  · exact hrun.1.2
  · cases t with
    | zero => exact answers_handle w Call.live c s
    | succ t => exact True.intro
  · obtain ⟨⟨hs, hcounting⟩, hmeets⟩ := hJ
    refine ⟨?_, meets_cons.mpr ⟨hcounting.faithfulIff hs t c, hmeets⟩⟩
    cases t with
    | zero => exact ⟨hs.step hallows.1, hcounting.step hs hallows.1 hallows.2⟩
    | succ t =>
      obtain rfl : c = .snapshotState := hallows
      refine ⟨?_, hcounting.observe (Nat.succ_ne_zero t)⟩
      rw [Sequential, viewOf_step_ne w (Nat.succ_ne_zero t)]
      exact ⟨hs.agrees, hs.running, hs.nodup⟩
  · cases t with
    | zero =>
      obtain rfl : (Call.tick dag).prog = p := Option.some.inj hp
      have hlive : Call.live (.tick dag) := True.intro
      exact (Call.obeys hlive hrest).mono (fun _ _ _ => True.intro) fun _ _ _ => True.intro
    | succ t =>
      have hmem : p ∈ List.replicate n Call.snapshotState.prog := List.mem_of_getElem? hp
      obtain rfl := (List.mem_replicate.mp hmem).2
      exact ⟨rfl, fun _ _ => True.intro⟩

/-- The log ends with a snapshot that miscounts the failures of some job. -/
def miscounts (w : World) : List SchedEvent → Bool
  | ⟨_, .snapshotState, s⟩ :: _ =>
    (handle w .snapshotState s).1.jobs.any fun job => job.attempts.toNat ≠ failuresSince job.id s.emitted
  | _ => false

theorem not_faithful_of_miscounts {log : List SchedEvent} (h : miscounts w log = true) :
    ∃ e past, (e :: past) <:+ log ∧ e.cmd = .snapshotState ∧
      ∃ job ∈ (takenBy w e).jobs, ¬ (takenBy w e).Faithful e.pre.emitted job := by
  unfold miscounts at h
  split at h
  · next t s past =>
    obtain ⟨job, hjob, hcount⟩ := List.any_eq_true.mp h
    refine ⟨⟨t, .snapshotState, s⟩, past, List.suffix_rfl, rfl, job, hjob, fun hfaithful => ?_⟩
    exact of_decide_eq_true hcount hfaithful.attempts
  · exact Bool.noConfusion h

namespace Sample

/-- A job that fails in the first tick only. -/
def recovering : ErasedJob := ⟨jobId "a", fun time => ⟨⟨0⟩, if time < 30 then .err else .ok⟩⟩

/-- The calls before the tick in which `recovering` succeeds. -/
def failedOnce : List Call :=
  [.registerRetryPolicy ⟨"build"⟩ (.fixed 3 0), .registerJob recovering, .tick (single "a")]

end Sample

/-- Between the two writes of a failure the snapshot counts one failure too many; between those of a
success it still carries the failures before it. -/
theorem snapshot_between_writes :
    (∃ e past, (e :: past) <:+ ((tickObserved (Sample.single "a") 1 (runCalls Sample.world
        [.registerJob (Sample.job "a" .err)] (InProcessScheduler.new "t").start)).run
          (handle Sample.world) (List.replicate 15 0 ++ [1])).machine.log ∧
      e.cmd = .snapshotState ∧ ∃ job ∈ (takenBy Sample.world e).jobs,
        ¬ (takenBy Sample.world e).Faithful e.pre.emitted job) ∧
    ∃ e past, (e :: past) <:+ ((tickObserved (Sample.single "a") 1 (runCalls Sample.world
        Sample.failedOnce (InProcessScheduler.new "t").start)).run
          (handle Sample.world) (List.replicate 12 0 ++ [1])).machine.log ∧
      e.cmd = .snapshotState ∧ ∃ job ∈ (takenBy Sample.world e).jobs,
        ¬ (takenBy Sample.world e).Faithful e.pre.emitted job :=
  ⟨not_faithful_of_miscounts (by decide +kernel), not_faithful_of_miscounts (by decide +kernel)⟩

/-- The log ends with a snapshot, taken right after a failed job was moved out of Running, in which some job has
one attempt. -/
def savesFailed (w : World) : List SchedEvent → Bool
  | ⟨_, .snapshotState, s⟩ :: past =>
    (match latest past with
      | some ⟨_, .dispatch _ .executionFailed, _⟩ => true
      | _ => false) &&
    (handle w .snapshotState s).1.jobs.any fun job =>
      job.attempts = 1 && failuresSince job.id s.emitted < 4294967296
  | _ => false

theorem exists_of_savesFailed {log : List SchedEvent} (h : savesFailed w log = true) :
    ∃ e past, (e :: past) <:+ log ∧ e.cmd = .snapshotState ∧ ∃ job ∈ (takenBy w e).jobs,
      job.attempts = 1 ∧ Settled job.id past ∧ failuresSince job.id e.pre.emitted < 4294967296 := by
  unfold savesFailed at h
  split at h
  · next t s past =>
    obtain ⟨hlatest, hjobs⟩ := (Bool.and_eq_true ..).mp h
    obtain ⟨job, hjob, hcounts⟩ := List.any_eq_true.mp hjobs
    obtain ⟨hone, hsmall⟩ := (Bool.and_eq_true ..).mp hcounts
    refine ⟨⟨t, .snapshotState, s⟩, past, List.suffix_rfl, rfl, job, hjob, of_decide_eq_true hone,
      fun e he hhalf => ?_, of_decide_eq_true hsmall⟩
    rw [he] at hlatest
    split at hlatest
    · next heq =>
      obtain rfl := Option.some.inj heq
      rcases hhalf with hcmd | ⟨hcmd, -⟩ <;> cases hcmd
    · exact Bool.noConfusion hlatest
  · exact Bool.noConfusion h

/-- A failing job is ticked up to the command that moves it out of Running, and then a snapshot is taken. -/
def Sample.failureSaved : List SchedEvent :=
  ((tickObserved (single "a") 1 (runCalls world [.registerJob (job "a" .err)]
    (InProcessScheduler.new "t").start)).run (handle world) (List.replicate 16 0 ++ [1])).machine.log

/-- This snapshot has one attempt of the job, and is faithful. -/
theorem snapshots_faithful_iff_failed :
    ∃ e past, (e :: past) <:+ Sample.failureSaved ∧ e.cmd = .snapshotState ∧
      ∃ job ∈ (takenBy Sample.world e).jobs,
        job.attempts = 1 ∧ (takenBy Sample.world e).Faithful e.pre.emitted job := by
  have hsaves : savesFailed Sample.world Sample.failureSaved = true := by decide +kernel
  obtain ⟨e, past, hlog, hcmd, job, hjob, hone, hsettled⟩ := exists_of_savesFailed hsaves
  refine ⟨e, past, hlog, hcmd, job, hjob, hone, ?_⟩
  have hcalls : ∀ call ∈ [Call.registerJob (Sample.job "a" .err)], call.live := by simp [Call.live]
  have hfaithful := snapshots_faithful_iff Sample.world "t" hcalls (Sample.single "a") 1
    (List.replicate 16 0 ++ [1]) e past hlog hcmd job hjob
  exact hfaithful.mpr hsettled

end Shigoto
