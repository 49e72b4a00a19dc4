import Shigoto.Scheduler.Sequential

/-!
# Retrying from scratch

An operator's re-arm moves a deadlettered job back to Pending and touches nothing else; the attempt
count stays. `Counting` follows the count of one job over a run: whatever it was at the start, each
failure adds one. `FromScratch` says that the job is granted all the attempts of its policy again;
that is so exactly when there was nothing counted at the start.
-/

namespace Shigoto

open Atomic

variable {w : World} {id : JobId} {first n : UInt32} {policy : RetryPolicy}

/-! ## Failures on record -/

/-- A failure of `id` is recorded and its retry is not decided yet. -/
def Awaiting (w : World) (id : JobId) (m : SchedMachine) : Prop :=
  (∃ k, m.state.phase id = .failed k) ∨
    ∃ results, (viewOf w 0 m.log).focus = .recorded id results

/-- The newest record of a history is not a declarative failure. -/
def NewestTransient (history : List FailureRecord) : Prop :=
  ∀ r, history.getLast? = some r → r.kind = .transient

theorem newestTransient_push (history : List FailureRecord) (attempt : UInt32) (atMs : Int64)
    (error : String) :
    NewestTransient (capHistory (history ++ [.new attempt atMs error])) := by
  intro r hr
  unfold capHistory at hr
  split at hr
  · next hlong =>
    rw [List.getLast?_drop, if_neg (by omega)] at hr
    simp only [List.getLast?_append, List.getLast?_singleton] at hr
    obtain rfl := Option.some.inj hr
    rfl
  · simp only [List.getLast?_append, List.getLast?_singleton] at hr
    obtain rfl := Option.some.inj hr
    rfl

/-! ## Counting -/

/-- The calls that leave alone what the retries of `id` depend on. -/
def Call.sparesRetries (id : JobId) : Call → Prop
  | .restoreState _ => False
  | .registerRetryPolicy kind _ => kind ≠ id.kind
  | .operatorTransition id' _ _ => id' ≠ id
  | _ => True

/-- The attempt number a retry decision in state `s` is made with. -/
def decisionAttempt (w : World) (id : JobId) (s : InProcessScheduler) : UInt32 :=
  (handle w (.readRetry id) s).1.2.1

/-- The count of `id` is the one at the start, `first`, plus the failures since. -/
structure Counting (w : World) (id : JobId) (first : UInt32) (policy : RetryPolicy)
    (m : SchedMachine) : Prop where
  registered : m.state.state.retryPolicies.get? id.kind = some policy
  counted : m.state.phase id ≠ .succeeded →
    (m.state.state.attempts.get? id).getD 0 = first + .ofNat (failedExecutions id m.log)
  stored : Awaiting w id m → (m.state.state.attempts.get? id).isSome = true ∧
    NewestTransient ((m.state.state.failureHistory.get? id).getD [])
  decisions : ∀ e past, (e :: past) <:+ m.log → e.cmd = .readRetry id →
    decisionAttempt w id e.pre = first + .ofNat (failedExecutions id past)

/-- A count that is stored is the one the decision is made with. -/
theorem Counting.decisionAttempt_eq {m : SchedMachine} (h : Counting w id first policy m)
    (hfailed : ∃ k, m.state.phase id = .failed k) :
    decisionAttempt w id m.state = first + .ofNat (failedExecutions id m.log) := by
  obtain ⟨a, ha⟩ := Option.isSome_iff_exists.mp (h.stored (.inl hfailed)).1
  obtain ⟨k, hk⟩ := hfailed
  have hcounted := h.counted (by simp [hk])
  rw [ha] at hcounted
  show (m.state.state.attempts.get? id).getD 1 = _
  rw [ha]
  exact hcounted

theorem Counting.registered_step {m : SchedMachine} (h : Counting w id first policy m) {c : Cmd}
    (hc : c.Permitted (Call.sparesRetries id) (viewOf w 0 m.log).pass.dag) :
    (m.step (handle w) 0 c).state.state.retryPolicies.get? id.kind = some policy := by
  rw [Machine.step, retryPolicies_handle]
  cases c with
  | registerRetryPolicy kind policy' =>
    have hkind : kind ≠ id.kind := hc
    exact (Map.get?_insert_ne m.state.state.retryPolicies policy' hkind.symm).trans h.registered
  | _ => exact h.registered

theorem Counting.decisions_step {m : SchedMachine} (hs : Sequential w m)
    (h : Counting w id first policy m) {c : Cmd} (hallows : (viewOf w 0 m.log).Allows c) :
    ∀ e past, (e :: past) <:+ (m.step (handle w) 0 c).log → e.cmd = .readRetry id →
      decisionAttempt w id e.pre = first + .ofNat (failedExecutions id past) := by
  intro e past hlog hcmd
  rcases List.suffix_cons_iff.mp hlog with heq | hlog
  · obtain ⟨rfl, rfl⟩ := List.cons.inj heq
    obtain rfl : c = .readRetry id := hcmd
    obtain ⟨k, hfocus⟩ : ∃ k, (viewOf w 0 m.log).focus = .looked id (.failed k) := hallows
    have hagrees := hs.agrees
    rw [hfocus] at hagrees
    exact h.decisionAttempt_eq ⟨k, hagrees (.inl True.intro)⟩
  · exact h.decisions e past hlog hcmd

/-- A command that does not touch the phase or the failures of `id` keeps its count. -/
theorem Counting.quiet {m : SchedMachine} (h : Counting w id first policy m) {c : Cmd}
    (hallows : (viewOf w 0 m.log).Allows c) (hc : c ≠ .recordFailure id)
    (hphase : (handle w c m.state).2.phase id = m.state.phase id)
    (hattempts : (handle w c m.state).2.state.attempts.get? id = m.state.state.attempts.get? id)
    (hhistory : (handle w c m.state).2.state.failureHistory.get? id =
      m.state.state.failureHistory.get? id) :
    ((m.step (handle w) 0 c).state.phase id ≠ .succeeded →
      ((m.step (handle w) 0 c).state.state.attempts.get? id).getD 0 =
        first + .ofNat (failedExecutions id (m.step (handle w) 0 c).log)) ∧
    (Awaiting w id (m.step (handle w) 0 c) →
      ((m.step (handle w) 0 c).state.state.attempts.get? id).isSome = true ∧
      NewestTransient (((m.step (handle w) 0 c).state.state.failureHistory.get? id).getD [])) := by
  have hbefore : Awaiting w id (m.step (handle w) 0 c) → Awaiting w id m := by
    rintro (⟨k, hk⟩ | ⟨results, hfocus⟩)
    · exact .inl ⟨k, hphase.symm.trans hk⟩
    · rw [viewOf_step_self] at hfocus
      exact absurd (View.recordFailure_of_recorded hallows hfocus) hc
  simp only [Machine.step, failedExecutions_cons_of_ne hc, hphase, hattempts, hhistory]
  exact ⟨h.counted, fun hawaiting => h.stored (hbefore hawaiting)⟩

/-- The signal that makes a job Failed is the one for its failed execution. -/
theorem Due.focus_of_failed {pass : Pass} {focus : Focus} {signal : Signal} {phase : JobPhase}
    {k : UInt32} (hdue : Due pass id focus signal) (hadvance : advance phase signal = .ok (.failed k)) :
    ∃ results, focus = .recorded id results := by
  cases hdue with
  | failure results => exact ⟨results, rfl⟩
  | gates phase' ctx outcomes news =>
    have htarget := (advance_evaluateGates_iff.mp hadvance).2
    cases hagg : cohortAggregate ctx outcomes <;> simp [hagg, GateAggregate.phase] at htarget
  | backoff untilMs nowMs elapsed => simpa using (advance_backoffElapsed_iff.mp hadvance).2
  | slot seeded => simpa using (advance_allocateBudget_iff.mp hadvance).2
  | retry outcome =>
    have htarget := (advance_retryDecide_iff.mp hadvance).2
    cases outcome <;> simp [RetryOutcome.phase] at htarget
  | success results => simpa using (advance_executionSucceeded_iff.mp hadvance).2

theorem Counting.step {m : SchedMachine} (hs : Sequential w m) (h : Counting w id first policy m)
    {c : Cmd} (hallows : (viewOf w 0 m.log).Allows c)
    (hc : c.Permitted (Call.sparesRetries id) (viewOf w 0 m.log).pass.dag) :
    Counting w id first policy (m.step (handle w) 0 c) := by
  have hfailures := Prod.mk.inj (failures_handle w c m.state)
  suffices hstep : _ ∧ _ from
    ⟨h.registered_step hc, hstep.1, hstep.2, h.decisions_step hs hallows⟩
  have hquiet := h.quiet hallows
  -- a failure on record is that of this very command or has its signal behind it
  have hawaiting : c ≠ .recordFailure id → Awaiting w id (m.step (handle w) 0 c) →
      ∃ k, (handle w c m.state).2.phase id = .failed k := by
    rintro hne (hfailed | ⟨results, hfocus⟩)
    · exact hfailed
    · rw [viewOf_step_self] at hfocus
      exact absurd (View.recordFailure_of_recorded hallows hfocus) hne
  cases c with
  | dispatch id' signal =>
    obtain ⟨target, hadvance⟩ := View.Consistent.advance hs hallows
    have hphase := phase_dispatch_ok w hadvance id
    by_cases hid : id = id'
    · subst hid
      have hdue : Due (viewOf w 0 m.log).pass id (viewOf w 0 m.log).focus signal := hallows
      have hattempts : (m.step (handle w) 0 (.dispatch id signal)).state.state.attempts =
        m.state.state.attempts := hfailures.1
      have hhistory : (m.step (handle w) 0 (.dispatch id signal)).state.state.failureHistory =
        m.state.state.failureHistory := hfailures.2
      rw [hattempts, hhistory]
      refine ⟨fun _ => ?_, fun h' => ?_⟩
      · refine (h.counted fun hsucceeded => ?_).trans ?_
        · have hnot := hdue.not_terminal hadvance
          simp [hsucceeded, JobPhase.isTerminal] at hnot
        · rw [Machine.step, failedExecutions_cons_of_ne (by simp)]
      · obtain ⟨k, hk⟩ := hawaiting (by simp) h'
        rw [hphase, if_pos rfl] at hk
        subst hk
        exact h.stored (.inr (hdue.focus_of_failed hadvance))
    · rw [if_neg hid] at hphase
      exact hquiet (by simp) hphase (by rw [hfailures.1]) (by rw [hfailures.2])
  | recordFailure id' =>
    by_cases hid : id' = id
    · subst hid
      obtain ⟨results, hfocus⟩ : ∃ results, (viewOf w 0 m.log).focus =
        .applying ((id', .error ()) :: results) := hallows
      have hrunning : m.state.phase id' = .running :=
        hs.running id' (by rw [hfocus]; exact List.mem_cons_self)
      have hcounted := h.counted (by simp [hrunning])
      have hattempts : (m.step (handle w) 0 (.recordFailure id')).state.state.attempts.get? id' =
          some ((m.state.state.attempts.get? id').getD 0 + 1) :=
        Map.get?_insert_self m.state.state.attempts id' _
      have hhistory : (m.step (handle w) 0 (.recordFailure id')).state.state.failureHistory.get? id' =
          some _ := Map.get?_insert_self m.state.state.failureHistory id' _
      rw [hattempts, hhistory, Machine.step, failedExecutions_recordFailure]
      refine ⟨fun _ => ?_, fun _ => ⟨rfl, newestTransient_push _ _ _ _⟩⟩
      rw [Option.getD_some, hcounted, UInt32.add_assoc, UInt32.ofNat_add]
      rfl
    · have hne : id ≠ id' := fun h => hid h.symm
      exact hquiet (by simpa using hid) (phase_of_not_moves w rfl m.state id)
        (Map.get?_insert_ne m.state.state.attempts _ hne)
        (Map.get?_insert_ne m.state.state.failureHistory _ hne)
  | clearFailures id' =>
    obtain ⟨results, hfocus⟩ : ∃ results, (viewOf w 0 m.log).focus = .succeeded id' results := hallows
    by_cases hid : id' = id
    · subst hid
      have hsucceeded : (handle w (.clearFailures id') m.state).2.phase id' = .succeeded := by
        have hagrees := hs.agrees
        rw [hfocus] at hagrees
        exact (phase_of_not_moves w rfl m.state id').trans hagrees
      refine ⟨fun hne => absurd hsucceeded hne, fun h' => ?_⟩
      obtain ⟨k, hk⟩ := hawaiting (by simp) h'
      rw [hsucceeded] at hk
      simp at hk
    · have hne : id ≠ id' := fun h => hid h.symm
      exact hquiet (by simp) (phase_of_not_moves w rfl m.state id)
        (Map.get?_erase_ne m.state.state.attempts hne)
        (Map.get?_erase_ne m.state.state.failureHistory hne)
  | overwrite id' phase =>
    obtain ⟨reason, hne⟩ : ∃ _ : TransitionReason, id' ≠ id := hc
    exact hquiet (by simp) (phaseIn_insert_ne m.state.state.phases phase hne.symm) rfl rfl
  | restoreState saved => exact hc.elim
  | _ =>
    exact hquiet (by simp) (phase_of_not_moves w rfl m.state id) (by rw [hfailures.1])
      (by rw [hfailures.2])

/-! ## All attempts granted -/

/-- The job was granted `n` attempts: its decisions are numbered from one, and where it is
deadlettered it has failed `n` times. -/
structure FromScratch (w : World) (id : JobId) (n : UInt32) (m : SchedMachine) : Prop where
  attempts : ∀ e past, (e :: past) <:+ m.log → e.cmd = .readRetry id →
    (decisionAttempt w id e.pre).toNat = failedExecutions id past
  deadlettered : m.state.phase id = .deadlettered → failedExecutions id m.log = n.toNat
  past : ∀ e past, (e :: past) <:+ m.log → e.pre.phase id = .deadlettered →
    failedExecutions id past = n.toNat

/-- What the caller knows of a decision about `id` after `failures` failures. -/
def Focus.Weighs (focus : Focus) (id : JobId) (policy : RetryPolicy) (n : UInt32)
    (failures : Nat) : Prop :=
  match focus with
  | .judging id' policy' attempt history => id' = id →
    policy' = policy ∧ attempt.toNat = failures ∧ NewestTransient history
  | .delayed id' _ => id' = id → failures < n.toNat
  | .planned id' outcome => id' = id → (outcome = .deadletter ↔ n.toNat ≤ failures)
  | _ => True

/-- While attempts are left the job has failed fewer than `n` times. -/
structure Bounded (w : World) (id : JobId) (n : UInt32) (m : SchedMachine) : Prop where
  below : failedExecutions id m.log < n.toNat ∨ failedExecutions id m.log = n.toNat ∧
    (Awaiting w id m ∨ m.state.phase id = .deadlettered)
  deadlettered : m.state.phase id = .deadlettered → failedExecutions id m.log = n.toNat

/-- The bound, with what the caller knows and what was so at every earlier moment. -/
structure Granting (w : World) (id : JobId) (policy : RetryPolicy) (n : UInt32)
    (m : SchedMachine) : Prop where
  bounded : Bounded w id n m
  weighs : (viewOf w 0 m.log).focus.Weighs id policy n (failedExecutions id m.log)
  past : ∀ e past, (e :: past) <:+ m.log → e.pre.phase id = .deadlettered →
    failedExecutions id past = n.toNat

theorem Bounded.le {m : SchedMachine} (h : Bounded w id n m) :
    failedExecutions id m.log ≤ n.toNat := by
  rcases h.below with hlt | ⟨heq, -⟩ <;> omega

/-- A job that is neither Failed nor Deadlettered, and no failure of which is on record, has attempts
left. -/
theorem Bounded.lt {m : SchedMachine} (h : Bounded w id n m) (hawaiting : ¬ Awaiting w id m)
    (hphase : m.state.phase id ≠ .deadlettered) : failedExecutions id m.log < n.toNat := by
  rcases h.below with hlt | ⟨-, hor⟩
  · exact hlt
  · exact absurd hor (by simp [hawaiting, hphase])

/-- The decision follows the limit of the policy. -/
theorem Focus.Weighs.decided {history : List FailureRecord} {attempt : UInt32} {failures : Nat}
    (hlimit : policy.limit = some n) (hattempt : attempt.toNat = failures)
    (hhistory : NewestTransient history) (id' : JobId) (policy' : RetryPolicy) (s : InProcessScheduler)
    (hpolicy : policy' = policy) :
    (Focus.decided (.judging id' policy' attempt history)
      (handle w (.decide policy' attempt history) s).1).Weighs id policy n failures := by
  subst hpolicy
  have hiff : (handle w (.decide policy' attempt history) s).1 = .deadletter ↔ n.toNat ≤ failures := by
    rw [← hattempt, ← UInt32.le_iff_toNat_le]
    exact decide_deadletter_iff hlimit hhistory
  cases hdecision : (handle w (.decide policy' attempt history) s).1 with
  | deadletter =>
    intro _
    exact ⟨fun _ => hiff.mp hdecision, fun _ => rfl⟩
  | retry after =>
    intro _
    rw [hdecision] at hiff
    have hnot : ¬ n.toNat ≤ failures := fun hle => by simpa using hiff.mpr hle
    omega

/-- The attempt number is the number of failures, when nothing was counted before. -/
theorem Granting.attempt_eq {m : SchedMachine} (h : Granting w id policy n m)
    (hcount : Counting w id 0 policy m) (hfailed : ∃ k, m.state.phase id = .failed k) :
    (decisionAttempt w id m.state).toNat = failedExecutions id m.log := by
  have hle := h.bounded.le
  have hlt := n.toNat_lt
  rw [hcount.decisionAttempt_eq hfailed, UInt32.zero_add, UInt32.toNat_ofNat']
  exact Nat.mod_eq_of_lt (by omega)

theorem Granting.weighs_step {m : SchedMachine} (hs : Sequential w m)
    (hcount : Counting w id 0 policy m) (h : Granting w id policy n m)
    (hlimit : policy.limit = some n) {c : Cmd} (hallows : (viewOf w 0 m.log).Allows c) :
    (viewOf w 0 (m.step (handle w) 0 c).log).focus.Weighs id policy n
      (failedExecutions id (m.step (handle w) 0 c).log) := by
  rw [viewOf_step_self]
  have hweighs := h.weighs
  have hsame : c ≠ .recordFailure id →
      failedExecutions id (m.step (handle w) 0 c).log = failedExecutions id m.log :=
    fun hc => failedExecutions_cons_of_ne hc 0 m.state m.log
  have hagrees := hs.agrees
  generalize viewOf w 0 m.log = v at hallows hweighs hagrees
  obtain ⟨pass, focus⟩ := v
  cases c with
  | now =>
    rw [hsame (by simp)]
    cases focus with
    | looked id' phase => cases phase <;> exact True.intro
    | delayed id' after =>
      -- a retry was decided: the limit is not reached
      intro hid
      have hlt := hweighs hid
      simp only [reduceCtorEq, false_iff]
      omega
    | _ => exact hweighs
  | readRetry id' =>
    -- the three inputs of the decision are read in one section, so they belong together
    rw [hsame (by simp)]
    obtain ⟨k, rfl⟩ : ∃ k, focus = .looked id' (.failed k) := hallows
    rintro rfl
    have hfailed : ∃ k, m.state.phase id' = .failed k := ⟨k, hagrees (.inl True.intro)⟩
    refine ⟨?_, h.attempt_eq hcount hfailed, (hcount.stored (.inl hfailed)).2⟩
    show (m.state.state.retryPolicies.get? id'.kind).getD .noRetry = policy
    rw [hcount.registered]
    rfl
  | decide policy' attempt history =>
    rw [hsame (by simp)]
    obtain ⟨id', rfl⟩ : ∃ id', focus = .judging id' policy' attempt history := hallows
    by_cases hid : id' = id
    · obtain ⟨hpolicy, hattempt, hhistory⟩ := hweighs hid
      exact Focus.Weighs.decided hlimit hattempt hhistory id' policy' m.state hpolicy
    · show (Focus.decided _ (handle w (.decide policy' attempt history) m.state).1).Weighs _ _ _ _
      cases (handle w (.decide policy' attempt history) m.state).1 <;> exact fun h => absurd h hid
  | dispatch id' signal =>
    have hdue : Due pass id' focus signal := hallows
    cases (handle w (.dispatch id' signal) m.state).1 with
    | error e => exact True.intro
    | ok event => cases hdue <;> exact True.intro
  | readGates id' => rcases hallows with hlooked | hlooked <;> cases hlooked <;> exact True.intro
  | consult gate ctx =>
    obtain ⟨id', phase, ahead, outcomes, rfl⟩ := hallows
    exact True.intro
  | tryAllocate id' => cases (handle w (.tryAllocate id') m.state).1 <;> exact True.intro
  | runningOf wave => cases (handle w (.runningOf wave) m.state).1 <;> exact True.intro
  | lookupJob id' =>
    obtain ⟨ids, tasks, rfl⟩ : ∃ ids tasks, focus = .collecting (id' :: ids) tasks := hallows
    exact True.intro
  | spawn id' job timeout =>
    obtain ⟨ids, tasks, rfl⟩ : ∃ ids tasks, focus = .fetched id' job timeout ids tasks := hallows
    exact True.intro
  | recordFailure id' =>
    obtain ⟨results, rfl⟩ : ∃ results, focus = .applying ((id', .error ()) :: results) := hallows
    exact True.intro
  | clearFailures id' =>
    obtain ⟨results, rfl⟩ : ∃ results, focus = .succeeded id' results := hallows
    exact True.intro
  | release id' =>
    obtain ⟨results, rfl⟩ : ∃ results, focus = .releasing id' results := hallows
    exact True.intro
  | overwrite id' phase =>
    obtain ⟨source, rfl, -⟩ := hallows
    exact True.intro
  | _ => exact True.intro

/-- A signal to the job keeps the bound: only a decision at the limit deadletters it. -/
theorem Granting.bounded_dispatch {m : SchedMachine} (h : Granting w id policy n m)
    {signal : Signal} {target : JobPhase} (hallows : (viewOf w 0 m.log).Allows (.dispatch id signal))
    (hadvance : advance (m.state.phase id) signal = .ok target)
    (hphase : (handle w (.dispatch id signal) m.state).2.phase id = target) :
    Bounded w id n (m.step (handle w) 0 (.dispatch id signal)) := by
  have hsame : failedExecutions id (m.step (handle w) 0 (.dispatch id signal)).log =
      failedExecutions id m.log := failedExecutions_cons_of_ne (by simp) 0 m.state m.log
  have hweighs := h.weighs
  have hle := h.bounded.le
  have hstep : (m.step (handle w) 0 (.dispatch id signal)).state.phase id = target := hphase
  -- attempts are left, and the job is not deadlettered by this signal
  have hleft : (∀ k, m.state.phase id ≠ .failed k) → m.state.phase id ≠ .deadlettered →
      (∀ results, (viewOf w 0 m.log).focus ≠ .recorded id results) → target ≠ .deadlettered →
      Bounded w id n (m.step (handle w) 0 (.dispatch id signal)) :=
    fun hfailed hdead hfocus htarget =>
      ⟨.inl (hsame ▸ h.bounded.lt (by simp [Awaiting, hfailed, hfocus]) hdead),
        fun h => absurd (hstep.symm.trans h) htarget⟩
  generalize hv : viewOf w 0 m.log = v at hallows hweighs hleft
  obtain ⟨pass, focus⟩ := v
  have hdue : Due pass id focus signal := hallows
  cases hdue with
  | gates phase ctx outcomes news =>
    obtain ⟨hsource, rfl⟩ := advance_evaluateGates_iff.mp hadvance
    refine hleft (fun k hk => ?_) (fun hdead => ?_) (by simp) ?_
    · simp [hk, JobPhase.evaluable] at hsource
    · simp [hdead, JobPhase.evaluable] at hsource
    · cases cohortAggregate ctx outcomes <;> simp [GateAggregate.phase]
  | backoff untilMs nowMs elapsed =>
    obtain ⟨⟨until', hsource⟩, rfl⟩ := advance_backoffElapsed_iff.mp hadvance
    exact hleft (by simp [hsource]) (by simp [hsource]) (by simp) (by simp)
  | slot seeded =>
    obtain ⟨hsource, rfl⟩ := advance_allocateBudget_iff.mp hadvance
    exact hleft (by simp [hsource]) (by simp [hsource]) (by simp) (by simp)
  | success results =>
    obtain ⟨hsource, rfl⟩ := advance_executionSucceeded_iff.mp hadvance
    exact hleft (by simp [hsource]) (by simp [hsource]) (by simp) (by simp)
  | failure results =>
    obtain ⟨hsource, rfl⟩ := advance_executionFailed_iff.mp hadvance
    refine ⟨?_, fun h => by simp [hstep] at h⟩
    rw [hsame]
    rcases Nat.lt_or_eq_of_le hle with hlt | heq
    · exact .inl hlt
    · exact .inr ⟨heq, .inl (.inl ⟨1, hstep⟩)⟩
  | retry outcome =>
    obtain ⟨hsource, rfl⟩ := advance_retryDecide_iff.mp hadvance
    have hiff : outcome = .deadletter ↔ n.toNat ≤ failedExecutions id m.log := hweighs rfl
    cases outcome with
    | deadletter =>
      have heq : failedExecutions id m.log = n.toNat := le_antisymm hle (hiff.mp rfl)
      exact ⟨.inr ⟨hsame.trans heq, .inr hstep⟩, fun _ => hsame.trans heq⟩
    | retry untilMs =>
      have hlt : failedExecutions id m.log < n.toNat := by
        by_contra hnot
        simpa using hiff.mpr (by omega)
      exact ⟨.inl (hsame ▸ hlt), fun h => absurd (hstep.symm.trans h) (by simp [RetryOutcome.phase])⟩

theorem Granting.bounded_step {m : SchedMachine} (hs : Sequential w m)
    (h : Granting w id policy n m) {c : Cmd} (hallows : (viewOf w 0 m.log).Allows c)
    (hc : c.Permitted (Call.sparesRetries id) (viewOf w 0 m.log).pass.dag) :
    Bounded w id n (m.step (handle w) 0 c) := by
  -- a command that neither moves the job nor records a failure of it
  have hquiet : c ≠ .recordFailure id → (∀ signal, c ≠ .dispatch id signal) →
      (handle w c m.state).2.phase id = m.state.phase id →
      Bounded w id n (m.step (handle w) 0 c) := by
    intro hrecord hdispatch hphase
    have hsame : failedExecutions id (m.step (handle w) 0 c).log = failedExecutions id m.log :=
      failedExecutions_cons_of_ne hrecord 0 m.state m.log
    have hstep : (m.step (handle w) 0 c).state.phase id = m.state.phase id := hphase
    have hawaiting : Awaiting w id m → Awaiting w id (m.step (handle w) 0 c) := by
      rintro (⟨k, hk⟩ | ⟨results, hfocus⟩)
      · exact .inl ⟨k, hphase.trans hk⟩
      · exact absurd (hallows.dispatch_of_recorded hfocus) (hdispatch _)
    refine ⟨?_, ?_⟩
    · rw [hsame, hstep]
      exact h.bounded.below.imp_right fun hfull => ⟨hfull.1, hfull.2.imp_left hawaiting⟩
    · rw [hsame, hstep]
      exact h.bounded.deadlettered
  cases c with
  | dispatch id' signal =>
    obtain ⟨target, hadvance⟩ := View.Consistent.advance hs hallows
    have hphase := phase_dispatch_ok w hadvance id
    by_cases hid : id = id'
    · subst hid
      rw [if_pos rfl] at hphase
      exact h.bounded_dispatch hallows hadvance hphase
    · rw [if_neg hid] at hphase
      exact hquiet (by simp) (fun signal h => hid (by injection h with h; exact h.symm)) hphase
  | recordFailure id' =>
    by_cases hid : id' = id
    · subst hid
      obtain ⟨results, hfocus⟩ : ∃ results, (viewOf w 0 m.log).focus =
        .applying ((id', .error ()) :: results) := hallows
      have hrunning : m.state.phase id' = .running :=
        hs.running id' (by rw [hfocus]; exact List.mem_cons_self)
      have hlt := h.bounded.lt (by simp [Awaiting, hrunning, hfocus]) (by simp [hrunning])
      have hcount : failedExecutions id' (m.step (handle w) 0 (.recordFailure id')).log =
          failedExecutions id' m.log + 1 := failedExecutions_recordFailure id' 0 m.state m.log
      have hrecorded : Awaiting w id' (m.step (handle w) 0 (.recordFailure id')) := by
        refine .inr ⟨results, ?_⟩
        rw [viewOf_step_self]
        simp [View.next, hfocus]
      have hphase : (m.step (handle w) 0 (.recordFailure id')).state.phase id' = .running :=
        (phase_of_not_moves w rfl m.state id').trans hrunning
      refine ⟨?_, fun h => by simp [hphase] at h⟩
      rw [hcount]
      rcases Nat.lt_or_eq_of_le (Nat.succ_le_of_lt hlt) with hlt | heq
      · exact .inl hlt
      · exact .inr ⟨heq, .inl hrecorded⟩
    · exact hquiet (by simpa using hid) (by simp) (phase_of_not_moves w rfl m.state id)
  | overwrite id' phase =>
    obtain ⟨reason, hne⟩ : ∃ _ : TransitionReason, id' ≠ id := hc
    exact hquiet (by simp) (by simp) (phaseIn_insert_ne m.state.state.phases phase hne.symm)
  | restoreState saved => exact hc.elim
  | _ => exact hquiet (by simp) (by simp) (phase_of_not_moves w rfl m.state id)

theorem Granting.step {m : SchedMachine} (hs : Sequential w m) (hcount : Counting w id 0 policy m)
    (h : Granting w id policy n m) (hlimit : policy.limit = some n) {c : Cmd}
    (hallows : (viewOf w 0 m.log).Allows c)
    (hc : c.Permitted (Call.sparesRetries id) (viewOf w 0 m.log).pass.dag) :
    Granting w id policy n (m.step (handle w) 0 c) := by
  refine ⟨h.bounded_step hs hallows hc, h.weighs_step hs hcount hlimit hallows, ?_⟩
  intro e past hlog hdead
  rcases List.suffix_cons_iff.mp hlog with heq | hlog
  · obtain ⟨rfl, rfl⟩ := List.cons.inj heq
    exact h.bounded.deadlettered hdead
  · exact h.past e past hlog hdead

/-! ## The re-arm -/

/-- The scheduler after an operator moved `id` back to Pending. -/
def rearmed (w : World) (id : JobId) (reason : TransitionReason) (s : InProcessScheduler) :
    InProcessScheduler :=
  (runCalls w [.operatorTransition id .pending reason] s.start).state

/-- A re-arm moves the job and leaves its count and its policy as they are. -/
theorem rearmed_spec {s : InProcessScheduler} (hdead : s.phase id = .deadlettered)
    (reason : TransitionReason) :
    (rearmed w id reason s).phase id = .pending ∧
    (rearmed w id reason s).state.attempts = s.state.attempts ∧
    (rearmed w id reason s).state.retryPolicies = s.state.retryPolicies := by
  have hrun : rearmed w id reason s =
      ((operatorTransitionFrom id .pending reason (s.phase id)).exec (handle w) 0
        (s.start.step (handle w) 0 (.phaseOf id))).2.state := rfl
  rw [hrun, hdead]
  exact ⟨phaseIn_insert_self _ _ _, rfl, rfl⟩

theorem failedExecutions_le_of_suffix (id : JobId) {past log : List SchedEvent}
    (h : past <:+ log) : failedExecutions id past ≤ failedExecutions id log :=
  List.Sublist.countP_le h.sublist

/-- **A re-arm grants all attempts again exactly when none were counted.** After an operator moved a
deadlettered job back to Pending, and on any run that does not restore, re-arm this job once more or
replace its policy: with no attempts on record the job is retried from scratch; and if it fails again
at all, it is retried from scratch only then. -/
theorem rearm_fromScratch_iff (w : World) {s : InProcessScheduler} {id : JobId}
    (hdead : s.phase id = .deadlettered) {policy : RetryPolicy} {n : UInt32}
    (hpolicy : s.state.retryPolicies.get? id.kind = some policy) (hlimit : policy.limit = some n)
    (hn : 0 < n) (reason : TransitionReason) {calls : List Call}
    (hcalls : ∀ call ∈ calls, call.sparesRetries id) :
    let m := runCalls w calls (rearmed w id reason s).start
    ((s.state.attempts.get? id).getD 0 = 0 → FromScratch w id n m) ∧
    ((∃ e ∈ m.log, e.cmd = .readRetry id) →
      (FromScratch w id n m ↔ (s.state.attempts.get? id).getD 0 = 0)) := by
  intro m
  obtain ⟨hpending, hattempts, hpolicies⟩ := rearmed_spec (w := w) hdead reason
  set s₁ := rearmed w id reason s
  have hnotAwaiting : ¬ Awaiting w id s₁.start := by
    rintro (⟨k, hk⟩ | ⟨results, hfocus⟩)
    · rw [show s₁.start.state.phase id = .pending from hpending] at hk
      simp at hk
    · simp [viewOf, InProcessScheduler.start, history, view, View.start] at hfocus
  have hcounting : Counting w id ((s.state.attempts.get? id).getD 0) policy s₁.start := by
    refine ⟨?_, fun _ => ?_, fun h => absurd h hnotAwaiting, by simp [InProcessScheduler.start]⟩
    · exact (congrArg (Map.get? · id.kind) hpolicies).trans hpolicy
    · show (s₁.state.attempts.get? id).getD 0 = _ + 0
      rw [hattempts, UInt32.add_zero]
  have hstart := Sequential.start w s₁
  have hscratch : (s.state.attempts.get? id).getD 0 = 0 → FromScratch w id n m := by
    intro hzero
    rw [hzero] at hcounting
    have hgranting : Granting w id policy n s₁.start := by
      have hnone : ¬ s₁.start.state.phase id = .deadlettered := by
        rw [show s₁.start.state.phase id = .pending from hpending]
        simp
      exact ⟨⟨.inl (UInt32.lt_iff_toNat_lt.mp hn), fun h => absurd h hnone⟩, True.intro,
        by simp [InProcessScheduler.start]⟩
    obtain ⟨⟨hcount, hgrant⟩, -⟩ := runCalls_induct
      (J := fun m => Counting w id 0 policy m ∧ Granting w id policy n m)
      (fun m c hs hJ hallows hc =>
        ⟨hJ.1.step hs hallows hc, hJ.2.step hs hJ.1 hlimit hallows hc⟩)
      hcalls hstart (Resting.start w s₁) ⟨hcounting, hgranting⟩
    refine ⟨fun e past hlog hcmd => ?_, hgrant.bounded.deadlettered, hgrant.past⟩
    have hle := (failedExecutions_le_of_suffix id ((List.suffix_cons e past).trans hlog)).trans
      hgrant.bounded.le
    have hlt := n.toNat_lt
    rw [hcount.decisions e past hlog hcmd, UInt32.zero_add, UInt32.toNat_ofNat']
    exact Nat.mod_eq_of_lt (by omega)
  refine ⟨hscratch, fun hdecided => ⟨fun h => ?_, hscratch⟩⟩
  obtain ⟨e, he, hcmd⟩ := hdecided
  obtain ⟨hcount, -⟩ := runCalls_induct (fun m c hs hJ hallows hc => Counting.step hs hJ hallows hc)
    hcalls hstart (Resting.start w s₁) hcounting
  obtain ⟨newer, past, hlog⟩ := List.append_of_mem he
  have hsuffix : (e :: past) <:+ m.log := ⟨newer, hlog.symm⟩
  have hdecision := hcount.decisions e past hsuffix hcmd
  have hnumber := h.attempts e past hsuffix hcmd
  have heq : (s.state.attempts.get? id).getD 0 + .ofNat (failedExecutions id past) =
      .ofNat (failedExecutions id past) := by
    rw [← hdecision, ← hnumber, UInt32.ofNat_toNat]
  exact UInt32.add_eq_right.mp heq

namespace Sample

/-- Three attempts for job `a`, whose executions fail. -/
def threeAttempts : List Call :=
  [.registerRetryPolicy ⟨"build"⟩ (.fixed 3 0), .registerJob (job "a" .err)]

def tickAlone : Call := .tick (single "a")

/-- Job `a` has used up its three attempts. -/
def exhausted : InProcessScheduler :=
  (runCalls world (threeAttempts ++ [tickAlone, tickAlone, tickAlone])
    (InProcessScheduler.new "t").start).state

/-- Job `a` is restored as deadlettered, with no attempts. -/
def restoredDead : InProcessScheduler :=
  (runCalls world (threeAttempts ++ [.restoreState ⟨[⟨jobId "a", .deadlettered, 0, []⟩]⟩])
    (InProcessScheduler.new "t").start).state

end Sample

/-- After a re-arm the exhausted job is deadlettered by its first failure instead of its third. -/
theorem rearm_deadletters_at_once :
    let m := runCalls Sample.world [Sample.tickAlone]
      (rearmed Sample.world (Sample.jobId "a") (.operatorAction "again") Sample.exhausted).start
    Sample.exhausted.phase (Sample.jobId "a") = .deadlettered ∧
    m.state.phase (Sample.jobId "a") = .deadlettered ∧
    failedExecutions (Sample.jobId "a") m.log = 1 ∧
    ¬ FromScratch Sample.world (Sample.jobId "a") 3 m := by
  intro m
  have hdead : m.state.phase (Sample.jobId "a") = .deadlettered := by decide +kernel
  have hone : failedExecutions (Sample.jobId "a") m.log = 1 := by decide +kernel
  refine ⟨by decide +kernel, hdead, hone, fun h => ?_⟩
  have hthree := h.deadlettered hdead
  rw [hone] at hthree
  exact absurd hthree (by decide)

/-- With nothing counted, the re-armed job is granted its three attempts. -/
theorem rearm_fromScratch_restored :
    FromScratch Sample.world (Sample.jobId "a") 3 (runCalls Sample.world
      [Sample.tickAlone, Sample.tickAlone, Sample.tickAlone]
      (rearmed Sample.world (Sample.jobId "a") (.operatorAction "again")
        Sample.restoredDead).start) := by
  have hdead : Sample.restoredDead.phase (Sample.jobId "a") = .deadlettered := by decide +kernel
  have hpolicy : Sample.restoredDead.state.retryPolicies.get? (Sample.jobId "a" : JobId).kind =
      some (.fixed 3 0) := rfl
  have hcalls : ∀ call ∈ [Sample.tickAlone, Sample.tickAlone, Sample.tickAlone],
      call.sparesRetries (Sample.jobId "a") := by
    simp [Sample.tickAlone, Call.sparesRetries]
  exact (rearm_fromScratch_iff Sample.world hdead hpolicy rfl (by decide)
    (.operatorAction "again") hcalls).1 (by decide +kernel)

end Shigoto
