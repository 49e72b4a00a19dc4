import Shigoto.Scheduler.Legality
import Shigoto.Scheduler.Passes

/-!
# The retry budget

A policy with a limit allows a job a fixed number of failures. `Judged` counts them: the failures are
numbered in the log, the attempt counter holds their number and the history the last sixteen of them,
and where the job stands (`Standing`) depends on how many are left. PASS 2 adds to the count; PASS 1 and
PASS 3 only move the job, and PASS 3 leaves no job of its wave Failed (`Calm`).
-/

namespace Shigoto

open Atomic

variable {w : World} {m m' : SchedMachine} {id : JobId} {limit : Nat}

/-! ## Policies -/

/-- How many failures a policy allows; a custom decider says so case by case. -/
def RetryPolicy.allowance : RetryPolicy → Option Nat
  | .noRetry => some 1
  | .fixed attempts _ => some (max attempts.toNat 1)
  | .exponential attempts _ _ _ => some (max attempts.toNat 1)
  | .custom _ => none

theorem RetryPolicy.allowance_lt {policy : RetryPolicy} (h : policy.allowance = some limit) :
    0 < limit ∧ limit < 4294967296 := by
  cases policy with
  | noRetry =>
    obtain rfl : 1 = limit := Option.some.inj h
    decide
  | fixed attempts delayMs =>
    obtain rfl := Option.some.inj h
    have := attempts.toNat_lt
    omega
  | exponential attempts baseMs maxMs jitter =>
    obtain rfl := Option.some.inj h
    have := attempts.toNat_lt
    omega
  | custom decider => cases h

/-- A policy gives up exactly when its allowance is used up. -/
theorem decide_deadletter_iff_allowance {floatJitter : UInt64 → F64 → UInt32 → UInt64} {moment : Nat}
    {policy : RetryPolicy} {attempt : UInt32} {history : List FailureRecord}
    (h : policy.allowance = some limit) (hattempt : 0 < attempt.toNat)
    (hlast : ∀ r, history.getLast? = some r → r.kind = .transient) :
    policy.decide floatJitter moment attempt history = .deadletter ↔ limit ≤ attempt.toNat := by
  cases policy with
  | noRetry =>
    obtain rfl : 1 = limit := Option.some.inj h
    exact iff_of_true (RetryPolicy.decide_noRetry _ _ _ _) hattempt
  | fixed attempts delayMs =>
    obtain rfl := Option.some.inj h
    rw [decide_deadletter_iff rfl hlast, UInt32.le_iff_toNat_le]
    omega
  | exponential attempts baseMs maxMs jitter =>
    obtain rfl := Option.some.inj h
    rw [decide_deadletter_iff rfl hlast, UInt32.le_iff_toNat_le]
    omega
  | custom decider => cases h

/-- The policy by which the failures of a kind are judged. -/
def SchedulerState.policyOf (state : SchedulerState) (kind : JobKindId) : RetryPolicy :=
  (state.retryPolicies.get? kind).getD .noRetry

/-! ## Where a job stands -/

/-- Where `failures` leave a job that is allowed `limit` of them. -/
def Standing (limit failures : Nat) : JobPhase → Prop
  | .deadlettered => failures = limit
  | .failed _ => 0 < failures ∧ failures ≤ limit
  | _ => failures < limit

theorem Standing.le {failures : Nat} {phase : JobPhase} (h : Standing limit failures phase) :
    failures ≤ limit := by
  cases phase with
  | deadlettered => exact Nat.le_of_eq h
  | failed n => exact h.2
  | _ => exact Nat.le_of_lt h

/-- Phases that the outcome of an execution leads to. -/
def JobPhase.judged : JobPhase → Bool
  | .succeeded | .failed _ | .deadlettered => true
  | _ => false

theorem ne_succeeded_of_not_judged {phase : JobPhase} (h : phase.judged = false) :
    phase ≠ .succeeded := by
  rintro rfl
  cases h

theorem not_judged_of_evaluable {phase : JobPhase} (h : phase.evaluable = true) :
    phase.judged = false := by
  cases phase with
  | pending | gated | ready | retrying => rfl
  | _ => cases h

theorem standing_of_not_judged {failures : Nat} {phase : JobPhase} (h : phase.judged = false) :
    Standing limit failures phase ↔ failures < limit := by
  cases phase with
  | failed n => cases h
  | deadlettered => cases h
  | _ => exact Iff.rfl

theorem JobPhase.not_failed_of_not_judged {phase : JobPhase} (h : phase.judged = false) :
    phase.isFailed = false := by
  cases phase with
  | failed n => cases h
  | _ => rfl

/-! ## The failures of a job -/

/-- The results of the executions of `id`, oldest first. An execution that panics has none. -/
def resultsOf (id : JobId) (tasks : List Task) : List ExecResult :=
  (tasks.filter fun task => task.id = id).filterMap (·.result)

theorem resultsOf_append (tasks tasks' : List Task) :
    resultsOf id (tasks ++ tasks') = resultsOf id tasks ++ resultsOf id tasks' := by
  simp [resultsOf]

theorem resultsOf_of_not_mem {tasks : List Task} (h : id ∉ tasks.map (·.id)) :
    resultsOf id tasks = [] := by
  have hnone : (tasks.filter fun task => task.id = id) = [] := by
    apply List.filter_eq_nil_iff.mpr
    intro task htask hid
    exact h (List.mem_map.mpr ⟨task, htask, of_decide_eq_true hid⟩)
  rw [resultsOf, hnone]
  rfl

theorem resultsOf_of_mem {tasks : List Task} {task : Task} (hnodup : (tasks.map (·.id)).Nodup)
    (htask : task ∈ tasks) : resultsOf task.id tasks = task.result.toList := by
  obtain ⟨before, after, rfl⟩ := List.append_of_mem htask
  rw [List.map_append, List.map_cons, List.nodup_middle, List.nodup_cons, List.mem_append, not_or]
    at hnodup
  rw [resultsOf_append, resultsOf_of_not_mem hnodup.1.1, List.nil_append, ← List.singleton_append,
    resultsOf_append, resultsOf_of_not_mem hnodup.1.2, List.append_nil]
  cases hresult : task.result <;> simp [resultsOf, hresult]

/-- The failures of `id` are counted and recorded, and are within its allowance. -/
structure Judged (w : World) (id : JobId) (limit : Nat) (m : SchedMachine) : Prop where
  policy : (m.state.state.policyOf id.kind).allowance = some limit
  results : resultsOf id (runs w m.log) =
    List.replicate (recordsOf w id m.log).length (.error ()) ++
      if m.state.phase id = .succeeded then [.ok ()] else []
  standing : Standing limit (recordsOf w id m.log).length (m.state.phase id)
  numbered : (recordsOf w id m.log).map (·.attempt.toNat) =
    List.range' 1 (recordsOf w id m.log).length
  transient : ∀ r ∈ recordsOf w id m.log, r.kind = .transient
  attempts : m.state.phase id ≠ .succeeded → (m.state.state.attempts.get? id).map (·.toNat) =
    if recordsOf w id m.log = [] then none else some (recordsOf w id m.log).length
  history : m.state.phase id ≠ .succeeded → (m.state.state.failureHistory.get? id).getD [] =
    (recordsOf w id m.log).drop ((recordsOf w id m.log).length - 16)

namespace Judged

/-- The counter of attempts, where none is read as zero. -/
theorem counter (h : Judged w id limit m) (hnot : m.state.phase id ≠ .succeeded) :
    ((m.state.state.attempts.get? id).getD 0).toNat = (recordsOf w id m.log).length := by
  have hattempts := h.attempts hnot
  cases hget : m.state.state.attempts.get? id with
  | none =>
    rw [hget] at hattempts
    split at hattempts
    · next hnil => simp [hnil]
    · cases hattempts
  | some attempt =>
    rw [hget] at hattempts
    split at hattempts
    · cases hattempts
    · exact Option.some.inj hattempts

theorem keep (h : Judged w id limit m) (htallied : Tallied w id none m m')
    (hpolicy : m'.state.state.policyOf id.kind = m.state.state.policyOf id.kind)
    (hresults : resultsOf id (runs w m'.log) = resultsOf id (runs w m.log))
    (hstanding : Standing limit (recordsOf w id m.log).length (m'.state.phase id))
    (hsucceeded : m'.state.phase id = .succeeded ↔ m.state.phase id = .succeeded) :
    Judged w id limit m' := by
  obtain ⟨hattempts, hhistory, hrecords⟩ := htallied
  refine ⟨hpolicy.symm ▸ h.policy, ?_, ?_, ?_, ?_, fun hnot => ?_, fun hnot => ?_⟩
  · simp only [hresults, hrecords, hsucceeded, h.results]
  · rwa [hrecords]
  · rw [hrecords]
    exact h.numbered
  · rw [hrecords]
    exact h.transient
  · rw [hattempts, hrecords]
    exact h.attempts fun hs => hnot (hsucceeded.mpr hs)
  · rw [hhistory, hrecords]
    exact h.history fun hs => hnot (hsucceeded.mpr hs)

/-- A job that is moved from one phase to another, neither of them the outcome of an execution. -/
theorem move (h : Judged w id limit m) (htallied : Tallied w id none m m')
    (hpolicy : m'.state.state.policyOf id.kind = m.state.state.policyOf id.kind)
    (hresults : resultsOf id (runs w m'.log) = resultsOf id (runs w m.log))
    (hmoved : m'.state.phase id = m.state.phase id ∨
      (m.state.phase id).judged = false ∧ (m'.state.phase id).judged = false) :
    Judged w id limit m' := by
  rcases hmoved with hsame | ⟨hbefore, hafter⟩
  · exact h.keep htallied hpolicy hresults (hsame.symm ▸ h.standing) (by rw [hsame])
  · refine h.keep htallied hpolicy hresults ?_ (iff_of_false ?_ ?_)
    · exact (standing_of_not_judged hafter).mpr ((standing_of_not_judged hbefore).mp h.standing)
    · exact ne_succeeded_of_not_judged hafter
    · exact ne_succeeded_of_not_judged hbefore

/-- The attempt counter of a job that has failed. -/
theorem attempts_of_failed (h : Judged w id limit m) (hnot : m.state.phase id ≠ .succeeded)
    (hpos : 0 < (recordsOf w id m.log).length) :
    ∃ attempt, m.state.state.attempts.get? id = some attempt ∧
      attempt.toNat = (recordsOf w id m.log).length := by
  have hattempts := h.attempts hnot
  rw [if_neg (List.ne_nil_of_length_pos hpos)] at hattempts
  exact Option.map_eq_some_iff.mp hattempts

/-- The newest failure of the history is one that was recorded. -/
theorem last_transient (h : Judged w id limit m) (hnot : m.state.phase id ≠ .succeeded) :
    ∀ r, ((m.state.state.failureHistory.get? id).getD []).getLast? = some r → r.kind = .transient := by
  intro r hr
  rw [h.history hnot] at hr
  exact h.transient r (List.drop_subset _ _ (List.mem_of_getLast? hr))

end Judged

theorem Drove.tallied {ids : List JobId} (h : Drove w ids m m') (id : JobId) :
    Tallied w id none m m' :=
  ⟨congrArg (fun attempts => Map.get? attempts id) h.attempts,
    congrArg (fun history => Map.get? history id) h.failureHistory, h.records id⟩

theorem SchedulerState.SameSetup.policyOf {state state' : SchedulerState} (h : state.SameSetup state')
    (kind : JobKindId) : state'.policyOf kind = state.policyOf kind := by
  unfold SchedulerState.policyOf
  rw [h.retryPolicies]

/-! ## PASS 1 and PASS 3 -/

/-- Driving moves no job to the outcome of an execution, except one that is Failed. -/
theorem judged_of_drives {ids : List JobId} {c : Cmd} (hc : c.drives ids) (s : InProcessScheduler)
    {id : JobId} (hfailed : (s.phase id).isFailed = false) :
    (handle w c s).2.phase id = s.phase id ∨
      (s.phase id).judged = false ∧ ((handle w c s).2.phase id).judged = false := by
  rcases phase_handle w c s id with hsame | ⟨signal, rfl, hadvance⟩ | hwrite | ⟨saved, rfl⟩
  · exact .inl hsame
  · obtain ⟨-, hsignal⟩ := hc
    right
    cases signal with
    | evaluateGates aggregate =>
      obtain ⟨hevaluable, hphase⟩ := advance_evaluateGates_iff.mp hadvance
      rw [hphase]
      exact ⟨not_judged_of_evaluable hevaluable, by cases aggregate <;> rfl⟩
    | allocateBudget =>
      obtain ⟨hbefore, hphase⟩ := advance_allocateBudget_iff.mp hadvance
      rw [hphase, hbefore]
      exact ⟨rfl, rfl⟩
    | backoffElapsed =>
      obtain ⟨⟨untilMs, hbefore⟩, hphase⟩ := advance_backoffElapsed_iff.mp hadvance
      rw [hphase, hbefore]
      exact ⟨rfl, rfl⟩
    | retryDecide outcome =>
      obtain ⟨⟨n, hbefore⟩, -⟩ := advance_retryDecide_iff.mp hadvance
      rw [hbefore] at hfailed
      cases hfailed
    | _ => exact Bool.noConfusion hsignal
  · rw [hwrite] at hc
    exact hc.elim
  · exact hc.elim

/-- The count of `id` is right, and no outcome of it is waiting for its policy. -/
def Calm (w : World) (id : JobId) (limit : Nat) (m : SchedMachine) : Prop :=
  Judged w id limit m ∧ (m.state.phase id).isFailed = false

/-- **Driving keeps a calm job calm.** -/
theorem wp_drives_calm {ids : List JobId} {p : Sched (List TransitionEvent)}
    (hp : Sched.Issues (Cmd.drives ids) p) (h : Calm w id limit m) :
    wp (handle w) 0 p (fun _ => Calm w id limit) (fun e _ => e.refusal) m := by
  have hmoved := Issues.wp (h := handle w) (t := 0) (m := m)
    (J := fun m' => (m'.state.phase id).isFailed = false ∧ (m'.state.phase id = m.state.phase id ∨
      (m.state.phase id).judged = false ∧ (m'.state.phase id).judged = false)) hp
    (fun m' c hm' hc => ?_) ⟨h.2, .inl rfl⟩
  · refine wp_mono (wp_and (wp_drives hp) hmoved) ?_ fun _ _ he => he.1.1
    rintro _ m' ⟨hdrove, hfailed, hmoved⟩
    exact ⟨h.1.move (hdrove.tallied id) (hdrove.setup.policyOf id.kind) (by rw [hdrove.runs]) hmoved,
      hfailed⟩
  · obtain ⟨hfailed, hmoved⟩ := hm'
    rcases judged_of_drives (w := w) hc m'.state hfailed with hsame | ⟨hbefore, hafter⟩
    · rw [Machine.step, hsame]
      exact ⟨hfailed, hmoved⟩
    · refine ⟨JobPhase.not_failed_of_not_judged hafter, .inr ⟨?_, hafter⟩⟩
      rcases hmoved with hsame | ⟨hstart, -⟩
      · exact hsame ▸ hbefore
      · exact hstart

/-- A failed job has failures, and not more than it is allowed. -/
theorem Judged.standing_of_failed {n : UInt32} (h : Judged w id limit m)
    (hfailed : m.state.phase id = .failed n) :
    0 < (recordsOf w id m.log).length ∧ (recordsOf w id m.log).length ≤ limit := by
  have hstanding := h.standing
  rwa [hfailed] at hstanding

/-- **A policy gives up exactly when the allowance of the job is used up.** -/
theorem wp_decideRetry {n : UInt32} (h : Judged w id limit m) (hfailed : m.state.phase id = .failed n) :
    wp (handle w) 0 (decideRetry id)
      (fun outcome m' => m'.state.state = m.state.state ∧ runs w m'.log = runs w m.log ∧
        recordsOf w id m'.log = recordsOf w id m.log ∧
        (outcome = .deadletter ↔ limit ≤ (recordsOf w id m.log).length))
      (fun _ _ => False) m := by
  have hnot : m.state.phase id ≠ .succeeded := by simp [hfailed]
  have hstanding := h.standing_of_failed hfailed
  obtain ⟨attempt, hattempt, hlength⟩ := h.attempts_of_failed hnot hstanding.1
  have hdecide : (m.state.state.policyOf id.kind).decide w.floatJitter (m.state.time + 1) attempt
      ((m.state.state.failureHistory.get? id).getD []) = .deadletter ↔ limit ≤ attempt.toNat :=
    decide_deadletter_iff_allowance h.policy (hlength.symm ▸ hstanding.1) (h.last_transient hnot)
  rw [hlength] at hdecide
  apply wp_perform_bind.mpr
  have hanswer : (handle w (.readRetry id) m.state).1 = (m.state.state.policyOf id.kind, attempt,
      (m.state.state.failureHistory.get? id).getD []) := by
    show (_, (m.state.state.attempts.get? id).getD 1, _) = _
    rw [hattempt]
    rfl
  rw [hanswer]
  apply wp_perform_bind.mpr
  have hdecision : (handle w (.decide (m.state.state.policyOf id.kind) attempt
      ((m.state.state.failureHistory.get? id).getD [])) (m.step (handle w) 0 (.readRetry id)).state).1 =
      (m.state.state.policyOf id.kind).decide w.floatJitter (m.state.time + 1) attempt
        ((m.state.state.failureHistory.get? id).getD []) := rfl
  rw [hdecision]
  split
  · next hdead => exact ⟨rfl, rfl, rfl, iff_of_true rfl (hdecide.mp hdead)⟩
  · next after hretry =>
    apply wp_perform_bind.mpr
    refine ⟨rfl, rfl, rfl, iff_of_false RetryOutcome.noConfusion fun hle => ?_⟩
    rw [hdecide.mpr hle] at hretry
    cases hretry

theorem wp_advanceOnce_failed {n : UInt32} {dag : Dag} {transitions : List TransitionEvent}
    (h : Judged w id limit m) (hfailed : m.state.phase id = .failed n) :
    wp (handle w) 0 (advanceOnce id (.failed n) dag transitions)
      (fun r m' => r.1 = true ∧ Calm w id limit m') (fun _ _ => False) m := by
  have hstanding := h.standing_of_failed hfailed
  apply wp_bind.mpr
  refine wp_mono (wp_decideRetry h hfailed) (fun outcome m₁ h₁ => ?_) fun _ _ he => he
  obtain ⟨hstate, hruns, hrecords, houtcome⟩ := h₁
  have hbefore : m₁.state.phase id = .failed n := by
    rw [← hfailed]
    exact congrArg (fun state : SchedulerState => phaseIn state.phases id) hstate
  have hadvance : advance (m₁.state.phase id) (.retryDecide outcome) = .ok outcome.phase :=
    advance_retryDecide_iff.mpr ⟨⟨n, hbefore⟩, rfl⟩
  apply wp_bind.mpr
  apply (wp_dispatch hadvance).mpr
  set m₂ := m₁.step (handle w) 0 (.dispatch id (.retryDecide outcome)) with hm₂
  have hafter : m₂.state.phase id = outcome.phase :=
    (phase_dispatch_ok w hadvance id).trans (if_pos rfl)
  have hsetup : m.state.state.SameSetup m₂.state.state :=
    hstate ▸ sameSetup_dispatch id (.retryDecide outcome) m₁.state
  have htallied : Tallied w id none m m₂ := by
    have hkept : Tallied w id none m m₁ := ⟨by rw [hstate], by rw [hstate], hrecords⟩
    exact hkept.then_none (tallied_step (by simp) (by simp) (by simp) m₁)
  refine ⟨rfl, h.keep htallied (hsetup.policyOf id.kind) ?_ ?_ ?_, ?_⟩
  · rw [hm₂, Machine.step, runs_cons_of_ne (by simp), hruns]
  · rw [hafter]
    cases outcome with
    | deadletter => exact Nat.le_antisymm hstanding.2 (houtcome.mp rfl)
    | retry untilMs => exact Nat.lt_of_not_le fun hle => RetryOutcome.noConfusion (houtcome.mpr hle)
  · rw [hafter, hfailed]
    refine iff_of_false ?_ (by simp)
    cases outcome <;> simp [RetryOutcome.phase]
  · rw [hafter]
    cases outcome <;> rfl

/-- One step is enough to judge a failure. -/
theorem wp_drive_judged (dag : Dag) (bound : Nat) (transitions : List TransitionEvent)
    (h : Judged w id limit m) :
    wp (handle w) 0 (drive dag id (bound + 1) transitions) (fun _ => Calm w id limit)
      (fun e _ => e.refusal) m := by
  cases hfailed : (m.state.phase id).isFailed with
  | false =>
    exact wp_drives_calm (issues_drive (List.mem_singleton_self id) dag (bound + 1) transitions)
      ⟨h, hfailed⟩
  | true =>
    obtain ⟨n, hphase⟩ : ∃ n, m.state.phase id = .failed n := by
      cases hphase : m.state.phase id with
      | failed n => exact ⟨n, rfl⟩
      | _ =>
        rw [hphase] at hfailed
        cases hfailed
    apply wp_perform_bind.mpr
    set m₁ := m.step (handle w) 0 (.phaseOf id) with hm₁
    have hanswer : (handle w (.phaseOf id) m.state).1 = .failed n := hphase
    rw [hanswer, if_neg (by simp)]
    have h₁ : Judged w id limit m₁ := h.keep .refl rfl rfl h.standing Iff.rfl
    apply wp_bind.mpr
    refine wp_mono (wp_advanceOnce_failed h₁ hphase) ?_ fun _ _ he => he.elim
    rintro ⟨progressed, transitions'⟩ m₂ ⟨rfl, hcalm⟩
    exact wp_drives_calm (issues_drive (List.mem_singleton_self id) dag bound transitions') hcalm

/-- **PASS 3 leaves no failure of its wave unjudged.** -/
theorem wp_pass3_calm (dag : Dag) {wave : List JobId} (transitions : List TransitionEvent)
    (h : Judged w id limit m) (hwave : id ∈ wave ∨ (m.state.phase id).isFailed = false) :
    wp (handle w) 0 (pass3 dag wave transitions) (fun _ => Calm w id limit)
      (fun e _ => e.refusal) m := by
  refine wp_pass3_job (fun m transitions h => wp_drive_judged dag 2 transitions h)
    (fun m m' ids hid hdrove => ?_) (fun m hcalm => hcalm.1) transitions h
    (hwave.imp_right fun hnot => ⟨h, hnot⟩)
  have hsame := hdrove.others id (.inl hid)
  have hkept : Judged w id limit m → Judged w id limit m' := fun h =>
    h.move (hdrove.tallied id) (hdrove.setup.policyOf id.kind) (by rw [hdrove.runs]) (.inl hsame)
  exact ⟨hkept, fun hcalm => ⟨hkept hcalm.1, hsame.symm ▸ hcalm.2⟩⟩

/-! ## PASS 2 -/

/-- The history keeps the last sixteen records. -/
theorem capHistory_drop (records : List FailureRecord) (r : FailureRecord) :
    capHistory (records.drop (records.length - 16) ++ [r]) =
      (records ++ [r]).drop ((records ++ [r]).length - 16) := by
  unfold capHistory
  by_cases hfull : 16 ≤ records.length
  · have hlength : (records.drop (records.length - 16) ++ [r]).length = 17 := by
      rw [List.length_append, List.length_drop, List.length_singleton]
      omega
    have hdrop : records.length + 1 - 16 = records.length - 16 + 1 := by omega
    rw [hlength, if_pos (by decide), List.length_append, List.length_singleton, hdrop,
      ← List.drop_append_of_le_length (by omega), List.drop_drop]
  · have hzero : records.length - 16 = 0 := by omega
    have hzero' : (records ++ [r]).length - 16 = 0 := by
      rw [List.length_append, List.length_singleton]
      omega
    rw [hzero, hzero', List.drop_zero, List.drop_zero, if_neg]
    rw [List.length_append, List.length_singleton]
    omega

/-- **One more failure** is counted, recorded and within the allowance. -/
theorem Judged.failed (h : Judged w id limit m) (hrunning : m.state.phase id = .running)
    (htallied : Tallied w id (some (.error ())) m m') (hphase : m'.state.phase id = .failed 1)
    (hpolicy : m'.state.state.policyOf id.kind = m.state.state.policyOf id.kind)
    (hresults : resultsOf id (runs w m'.log) = resultsOf id (runs w m.log) ++ [.error ()]) :
    Judged w id limit m' := by
  have hnot : m.state.phase id ≠ .succeeded := by simp [hrunning]
  have hlt : (recordsOf w id m.log).length < limit := by
    have := h.standing
    rwa [hrunning] at this
  obtain ⟨nowMs, hattempts, hhistory, hrecords⟩ := htallied
  set r := m.state.state.failure id nowMs with hr
  have hnumber : r.attempt.toNat = (recordsOf w id m.log).length + 1 := by
    -- the allowance fits the counter, so counting one more does not wrap
    have hbound := (RetryPolicy.allowance_lt h.policy).2
    rw [hr]
    show ((m.state.state.attempts.get? id).getD 0 + 1).toNat = _
    rw [UInt32.toNat_add, h.counter hnot]
    exact Nat.mod_eq_of_lt (by simp; omega)
  have hlength : (recordsOf w id m'.log).length = (recordsOf w id m.log).length + 1 := by
    rw [hrecords, List.length_append, List.length_singleton]
  refine ⟨hpolicy.symm ▸ h.policy, ?_, ?_, ?_, ?_, fun _ => ?_, fun _ => ?_⟩
  · rw [hresults, h.results, if_neg hnot, hphase, if_neg (by simp), hlength, List.append_nil,
      List.append_nil, List.replicate_succ']
  · rw [hphase, hlength]
    exact ⟨Nat.succ_pos _, hlt⟩
  · rw [hlength, hrecords, List.map_append, h.numbered, List.map_singleton, hnumber, List.range'_concat]
    simp [Nat.add_comm]
  · rw [hrecords]
    intro r' hr'
    rcases List.mem_append.mp hr' with hold | hnew
    · exact h.transient r' hold
    · rw [List.mem_singleton.mp hnew]
      rfl
  · rw [hattempts, hlength, if_neg (by simp [hrecords])]
    exact congrArg some hnumber
  · rw [hhistory, Option.getD_some, h.history hnot, capHistory_drop, hrecords]

/-- **PASS 2 executes a Running job and counts its failure.** -/
theorem Judged.executed {wave : List JobId} {tasks : List Task} (h : Calm w id limit m)
    (hnodup : wave.Nodup) (hexecuted : Executed w (m.state.runningOf wave) tasks m m') :
    Judged w id limit m' ∧ (id ∈ wave ∨ (m'.state.phase id).isFailed = false) := by
  have hpolicy := hexecuted.setup.policyOf id.kind
  by_cases hid : id ∈ m.state.runningOf wave
  · obtain ⟨hwave, hrunning⟩ := InProcessScheduler.mem_runningOf.mp hid
    refine ⟨?_, .inl hwave⟩
    obtain ⟨task, htask, rfl⟩ := List.mem_map.mp (hexecuted.ran.map_id.symm ▸ hid)
    have hresults : resultsOf task.id (runs w m'.log) =
        resultsOf task.id (runs w m.log) ++ task.result.toList := by
      rw [hexecuted.runs, resultsOf_append, resultsOf_of_mem (hexecuted.ran.map_id.symm ▸ hnodup.filter _)
        htask]
    have hphase := hexecuted.moved task htask
    have htallied := hexecuted.tallied task htask
    rw [Task.phase] at hphase
    cases hresult : task.result with
    | none =>
      rw [hresult] at hphase htallied hresults
      exact h.1.move htallied hpolicy (by rw [hresults]; simp) (.inl (hphase.trans hrunning.symm))
    | some result =>
      rw [hresult] at hphase htallied hresults
      cases result with
      | error u => exact h.1.failed hrunning htallied hphase hpolicy hresults
      | ok u =>
        have hnot : m.state.phase task.id ≠ .succeeded := by simp [hrunning]
        have hlt : (recordsOf w task.id m.log).length < limit := by
          have := h.1.standing
          rwa [hrunning] at this
        have hsucceeded : m'.state.phase task.id = .succeeded := hphase
        obtain ⟨-, -, hrecords⟩ := htallied
        refine ⟨hpolicy.symm ▸ h.1.policy, ?_, ?_, ?_, ?_, fun hne => absurd hsucceeded hne,
          fun hne => absurd hsucceeded hne⟩
        · rw [hresults, h.1.results, if_neg hnot, hsucceeded, if_pos rfl, hrecords, List.append_nil]
          rfl
        · rw [hsucceeded, hrecords]
          exact hlt
        · rw [hrecords]
          exact h.1.numbered
        · rw [hrecords]
          exact h.1.transient
  · have hsame := hexecuted.others id hid
    have hnone : id ∉ tasks.map (·.id) := hexecuted.ran.map_id.symm ▸ hid
    refine ⟨h.1.move (hexecuted.untallied id hid) hpolicy ?_ (.inl hsame), .inr (hsame ▸ h.2)⟩
    rw [hexecuted.runs, resultsOf_append, resultsOf_of_not_mem hnone, List.append_nil]

/-! ## Runs -/

theorem wp_runWaves_calm (dag : Dag) {waves : List (List JobId)} (hnodup : ∀ wave ∈ waves, wave.Nodup)
    (transitions : List TransitionEvent) (h : Calm w id limit m) :
    wp (handle w) 0 (runWaves dag waves transitions) (fun _ => Calm w id limit)
      (fun e _ => e.refusal) m := by
  induction waves generalizing m transitions with
  | nil => exact h
  | cons wave waves ih =>
    obtain ⟨hwave, hrest⟩ := List.forall_mem_cons.mp hnodup
    apply wp_bind.mpr
    refine wp_mono (wp_drives_calm (issues_pass1 dag wave transitions) h) (fun transitions₁ m₁ h₁ => ?_)
      fun _ _ he => he
    apply wp_bind.mpr
    refine wp_mono (wp_pass2 hwave) ?_ fun _ _ he => he.elim
    rintro transitions₂ m₂ ⟨tasks, new, hexecuted, -⟩
    obtain ⟨h₂, hfailed⟩ := Judged.executed h₁ hwave hexecuted
    apply wp_bind.mpr
    exact wp_mono (wp_pass3_calm dag transitions₂ h₂ hfailed)
      (fun transitions₃ m₃ h₃ => ih hrest transitions₃ h₃) fun _ _ he => he

/-- **A tick keeps the count of every job.** -/
theorem Calm.tick (h : Calm w id limit m) (dag : Dag) :
    Calm w id limit ((Shigoto.tick dag).exec (handle w) 0 m).2 := by
  have hspec : wp (handle w) 0 (Shigoto.tick dag) (fun _ => Calm w id limit)
      (fun e m' => e.refusal ∨ Calm w id limit m') m := by
    have h₁ : Calm w id limit ((m.step (handle w) 0 .now).step (handle w) 0 (.waves dag)) :=
      ⟨h.1.keep .refl rfl rfl h.1.standing Iff.rfl, h.2⟩
    refine wp_tick (fun e _ => .inr h₁) fun ws hwaves => ?_
    have hwave : ∀ wave ∈ ws, wave.Nodup := (List.nodup_flatten.mp (Dag.waves_nodup hwaves)).1
    refine wp_mono (wp_runWaves_calm dag hwave [] h₁) (fun _ m₂ h₂ => ?_) fun _ _ he => .inl he
    exact ⟨h₂.1.keep .refl rfl rfl h₂.1.standing Iff.rfl, h₂.2⟩
  have hexec := wp_iff_exec.mp hspec
  cases hend : ((Shigoto.tick dag).exec (handle w) 0 m).1 with
  | ok receipt => exact hexec.1 receipt hend
  | error e => exact (hexec.2 e hend).resolve_left (tick_not_refused dag m e hend)

/-- The calls that leave the policy of a kind alone and move no job by hand. -/
def Call.steady (kind : JobKindId) : Call → Prop
  | .operatorTransition _ _ _ | .restoreState _ => False
  | .registerRetryPolicy kind' _ => kind' ≠ kind
  | _ => True

theorem Calm.call (h : Calm w id limit m) {call : Call} (hcall : call.steady id.kind) :
    Calm w id limit (call.prog.exec (handle w) 0 m).2 := by
  -- most calls are one command that touches nothing the count depends on
  have hquiet : ∀ c : Cmd, c.moves = false → c ≠ .recordFailure id → c ≠ .clearFailures id →
      (∀ id job timeout, c ≠ .spawn id job timeout) →
      (handle w c m.state).2.state.policyOf id.kind = m.state.state.policyOf id.kind →
      Calm w id limit (m.step (handle w) 0 c) := by
    intro c hmoves hrecord hclear hspawn hpolicy
    have hsame : (m.step (handle w) 0 c).state.phase id = m.state.phase id :=
      phase_of_not_moves w hmoves m.state id
    have hrestore : ∀ saved, c ≠ .restoreState saved := by
      rintro saved rfl
      cases hmoves
    refine ⟨h.1.move (tallied_step hrecord hclear hrestore m) hpolicy ?_ (.inl hsame), hsame ▸ h.2⟩
    rw [Machine.step, runs_cons_of_ne hspawn]
  cases call with
  | tick dag =>
    have htick := h.tick dag
    rwa [← exec_discard] at htick
  | operatorTransition id target reason => exact hcall.elim
  | restoreState saved => exact hcall.elim
  | registerRetryPolicy kind policy =>
    refine hquiet (.registerRetryPolicy kind policy) rfl (by simp) (by simp) (by simp) ?_
    unfold SchedulerState.policyOf
    rw [retryPolicies_handle, Map.get?_insert_ne _ _ (Ne.symm hcall)]
  | installBudget budget => exact hquiet (.installBudget budget) rfl (by simp) (by simp) (by simp) rfl
  | registerGate kind gate => exact hquiet (.registerGate kind gate) rfl (by simp) (by simp) (by simp) rfl
  | registerJob job => exact hquiet (.registerJob job) rfl (by simp) (by simp) (by simp) rfl
  | setTimeout id timeout => exact hquiet (.setTimeout id timeout) rfl (by simp) (by simp) (by simp) rfl
  | snapshotState => exact hquiet .snapshotState rfl (by simp) (by simp) (by simp) rfl
  | snapshot => exact hquiet .snapshotInner rfl (by simp) (by simp) (by simp) rfl

theorem Calm.runCalls (h : Calm w id limit m) {calls : List Call}
    (hcalls : ∀ call ∈ calls, call.steady id.kind) : Calm w id limit (runCalls w calls m) := by
  induction calls generalizing m with
  | nil => exact h
  | cons call calls ih =>
    obtain ⟨hcall, hrest⟩ := List.forall_mem_cons.mp hcalls
    exact ih (h.call hcall) hrest

theorem Unstarted.calm (h : Unstarted w m)
    (hpolicy : (m.state.state.policyOf id.kind).allowance = some limit) : Calm w id limit m := by
  have hphase := h.phase id
  refine ⟨⟨hpolicy, ?_, ?_, ?_, ?_, fun _ => ?_, fun _ => ?_⟩, by rw [hphase]; rfl⟩
  · rw [h.runs, h.records, hphase]
    rfl
  · rw [h.records, hphase]
    exact (RetryPolicy.allowance_lt hpolicy).1
  · rw [h.records]
    rfl
  · rw [h.records]
    exact fun r hr => absurd hr List.not_mem_nil
  · rw [h.attempts, h.records]
    rfl
  · rw [h.failureHistory, h.records]
    rfl

/-! ## The result -/

/-- How the executions of `id` ended, oldest first; `none` stands for a panic. -/
def outcomesOf (w : World) (id : JobId) (log : List SchedEvent) : List (Option ExecResult) :=
  ((runs w log).filter fun task => task.id = id).map (·.result)

/-- The retry budget of `id` is exact: its executions fail, at most `limit` times, and then succeed at
most once; it is given up exactly at the last failure that is allowed; and until it succeeds its
counter and its history say how often it has failed. -/
structure RetryBudgetExact (w : World) (id : JobId) (limit : Nat) (m : SchedMachine) : Prop where
  outcomes : ∃ failures successes, failures ≤ limit ∧ successes ≤ 1 ∧ outcomesOf w id m.log =
    List.replicate failures (some (.error ())) ++ List.replicate successes (some (.ok ()))
  deadlettered : m.state.phase id = .deadlettered ↔
    (outcomesOf w id m.log).count (some (.error ())) = limit
  attempts : some (.ok ()) ∉ outcomesOf w id m.log →
    ((m.state.state.attempts.get? id).getD 0).toNat = (outcomesOf w id m.log).count (some (.error ()))
  recorded : (recordsOf w id m.log).length = (outcomesOf w id m.log).count (some (.error ()))
  history : some (.ok ()) ∉ outcomesOf w id m.log →
    (m.state.state.failureHistory.get? id).getD [] =
        (recordsOf w id m.log).drop ((recordsOf w id m.log).length - 16) ∧
      ((m.state.state.failureHistory.get? id).getD []).map (·.attempt.toNat) =
        let attempts := ((m.state.state.attempts.get? id).getD 0).toNat
        List.range' (attempts + 1 - min attempts 16) (min attempts 16)

/-- Without panics each execution has a result. -/
theorem outcomesOf_eq {log : List SchedEvent} (hpanic : ∀ e ∈ log, panics w e = false) :
    outcomesOf w id log = (resultsOf id (runs w log)).map some := by
  have hresult : ∀ task ∈ runs w log, task.result ≠ none := by
    intro task htask hlost
    obtain ⟨e, he, hpanics⟩ := exists_lost_iff.mp ⟨task, htask, hlost⟩
    exact Bool.noConfusion ((hpanic e he).symm.trans hpanics)
  unfold outcomesOf resultsOf
  generalize runs w log = tasks at hresult
  induction tasks with
  | nil => rfl
  | cons task tasks ih =>
    obtain ⟨htask, hrest⟩ := List.forall_mem_cons.mp hresult
    obtain ⟨result, hsome⟩ := Option.ne_none_iff_exists'.mp htask
    by_cases hid : task.id = id
    · rw [List.filter_cons_of_pos (by simpa using hid), List.map_cons, List.filterMap_cons, hsome,
        List.map_cons, ih hrest]
    · rw [List.filter_cons_of_neg (by simpa using hid)]
      exact ih hrest

theorem Calm.exact (h : Calm w id limit m) (hpanic : ∀ e ∈ m.log, panics w e = false) :
    RetryBudgetExact w id limit m := by
  obtain ⟨hjudged, hfailed⟩ := h
  set k := (recordsOf w id m.log).length with hk
  set successes := if m.state.phase id = .succeeded then 1 else 0 with hsuccesses
  have houtcomes : outcomesOf w id m.log =
      List.replicate k (some (.error ())) ++ List.replicate successes (some (.ok ())) := by
    rw [outcomesOf_eq hpanic, hjudged.results, List.map_append, List.map_replicate, ← hk, hsuccesses]
    split <;> rfl
  have hcount : (outcomesOf w id m.log).count (some (.error ())) = k := by
    rw [houtcomes, List.count_append, List.count_replicate_self, List.count_replicate, if_neg (by simp)]
    rfl
  have hnot : some (.ok ()) ∉ outcomesOf w id m.log → m.state.phase id ≠ .succeeded := by
    intro hmem hsucceeded
    rw [houtcomes, hsuccesses, if_pos hsucceeded] at hmem
    exact hmem (List.mem_append_right _ (List.mem_singleton_self _))
  have hattempts : some (.ok ()) ∉ outcomesOf w id m.log →
      ((m.state.state.attempts.get? id).getD 0).toNat = k :=
    fun hmem => hjudged.counter (hnot hmem)
  refine ⟨⟨k, successes, hjudged.standing.le, ?_, houtcomes⟩, ?_, ?_, hcount.symm, fun hmem => ?_⟩
  · rw [hsuccesses]
    split <;> decide
  · -- the standing of a phase bounds the failures, and only Deadlettered reaches the limit
    rw [hcount]
    have hstanding := hjudged.standing
    constructor
    · intro hphase
      rwa [hphase] at hstanding
    · intro hlimit
      rw [← hk, hlimit] at hstanding
      cases hphase : m.state.phase id with
      | deadlettered => rfl
      | failed n =>
        rw [hphase] at hfailed
        cases hfailed
      | _ =>
        rw [hphase] at hstanding
        exact absurd hstanding (Nat.lt_irrefl limit)
  · intro hmem
    rw [hattempts hmem, hcount]
  · have hhistory := hjudged.history (hnot hmem)
    refine ⟨hhistory, ?_⟩
    rw [hattempts hmem, hhistory, List.map_drop, hjudged.numbered, ← hk, List.drop_range']
    congr 1 <;> omega

/-- **The retry budget is exact.** On a run from a fresh scheduler without panics, operator transitions,
restores and changes of its policy, a job of a kind that allows `limit` failures uses up exactly what it
is allowed. -/
theorem retry_budget_exact (w : World) (tool : String) {setup calls : List Call}
    (hsetup : ∀ call ∈ setup, call.prepares = true) {id : JobId} {limit : Nat}
    (hpolicy : ((runCalls w setup (InProcessScheduler.new tool).start).state.state.policyOf
      id.kind).allowance = some limit)
    (hcalls : ∀ call ∈ calls, call.steady id.kind) :
    let m := runCalls w (setup ++ calls) (InProcessScheduler.new tool).start
    (∀ e ∈ m.log, panics w e = false) → RetryBudgetExact w id limit m := by
  intro m hpanic
  have hready := ((Unstarted.new w tool).prepared hsetup).calm hpolicy
  have hrun := hready.runCalls hcalls
  rw [← runCalls_append] at hrun
  exact hrun.exact hpanic

namespace Sample

/-- Register a policy of two attempts and a job that always fails. -/
def twoAttempts : List Call :=
  [.registerRetryPolicy (jobId "a" : JobId).kind (.fixed 2 0), .registerJob (job "a" .err)]

end Sample

/-- A job that is allowed two failures uses up both in two ticks, and is not executed by a third. -/
theorem retry_budget_exact_twice :
    let m := runCalls Sample.world (Sample.twoAttempts ++ List.replicate 3 (.tick (Sample.single "a")))
      (InProcessScheduler.new "t").start
    (outcomesOf Sample.world (Sample.jobId "a") m.log).count (some (.error ())) = 2 ∧
      RetryBudgetExact Sample.world (Sample.jobId "a") 2 m := by
  intro m
  have hexact : RetryBudgetExact Sample.world (Sample.jobId "a") 2 m :=
    retry_budget_exact Sample.world "t" (by decide) (by decide)
      (by simp [Call.steady]) (by decide +kernel)
  exact ⟨hexact.deadlettered.mp (by decide +kernel), hexact⟩

end Shigoto
