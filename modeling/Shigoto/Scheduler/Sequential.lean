import Shigoto.Scheduler.Conformance
import Shigoto.Scheduler.Flight

/-!
# One caller at a time

When nobody else acts in between, what a caller has read is still so when it acts: its view agrees
with the scheduler (`View.Sound`). In particular no signal is ever refused, and the executions in
flight are Running jobs, each once. `runCalls_induct` is the induction rule for all claims about
sequences of calls.
-/

namespace Shigoto

open Atomic

variable (w : World)

/-- The view of caller `t`. -/
def viewOf (t : Nat) (log : List SchedEvent) : View := view (history (handle w) t log)

@[simp] theorem viewOf_step_self (t : Nat) (c : Cmd) (m : SchedMachine) :
    viewOf w t (m.step (handle w) t c).log =
      (viewOf w t m.log).next c (handle w c m.state).1 := by
  rw [viewOf, history_step_self]
  exact view_cons _ _ _

theorem viewOf_step_ne {t u : Nat} (hne : u ≠ t) (c : Cmd) (m : SchedMachine) :
    viewOf w t (m.step (handle w) u c).log = viewOf w t m.log := by
  rw [viewOf, history_step_ne (handle w) hne]
  rfl

theorem viewOf_step (t u : Nat) (c : Cmd) (m : SchedMachine) :
    viewOf w t (m.step (handle w) u c).log =
      if t = u then (viewOf w u m.log).next c (handle w c m.state).1 else viewOf w t m.log := by
  by_cases h : t = u
  · rw [h, if_pos rfl, viewOf_step_self]
  · rw [if_neg h, viewOf_step_ne w (Ne.symm h)]

/-! ## Soundness of a view -/

/-- A phase that no operator can change. -/
def JobPhase.steady : JobPhase → Bool
  | .deadlettered | .waitingForOperator => false
  | _ => true

/-- What the focus says about the phases is so; `dag` is the graph of the tick. Unless the caller is
`alone`, only what operators cannot change is claimed. -/
def Focus.Agrees (alone : Prop) (focus : Focus) (dag : Dag) (s : InProcessScheduler) : Prop :=
  match focus with
  | .looked id phase => alone ∨ phase.steady = true → s.phase id = phase
  | .consulting id phase ctx _ _ =>
    s.phase id = phase ∧ (phase = .pending ∨ phase = .gated) ∧ ctx.jobId = id ∧ ctx.dag = dag ∧
      (alone → ctx.snapshot.phases = s.state.phases)
  | .clocked id untilMs _ => s.phase id = .retrying untilMs
  | .granted id => s.phase id = .ready
  | .judging id _ _ _ | .delayed id _ | .planned id _ => ∃ n, s.phase id = .failed n
  | .succeeded id _ => s.phase id = .succeeded
  | .releasing id _ => s.phase id = .succeeded ∨ s.phase id = .failed 1
  | .moved id _ target => alone → s.phase id = target
  | .refused => False
  | _ => True

/-- The view agrees with the scheduler, and the executions in flight are Running jobs, each once. -/
structure View.Consistent (alone : Prop) (v : View) (s : InProcessScheduler) : Prop where
  agrees : v.focus.Agrees alone v.pass.dag s
  running : ∀ id ∈ v.focus.flight, s.phase id = .running
  nodup : v.focus.flight.Nodup

/-- The view of a caller that is alone. -/
abbrev View.Sound (v : View) (s : InProcessScheduler) : Prop := v.Consistent True s

/-- A caller between two calls knows nothing. -/
theorem View.Consistent.rest (alone : Prop) (pass : Pass) (s : InProcessScheduler) :
    (View.mk pass .rest).Consistent alone s :=
  ⟨True.intro, by simp [Focus.flight], by simp [Focus.flight]⟩

section

variable {alone : Prop} {v : View} {s : InProcessScheduler}

/-- Where a signal is due to a consistent view, the table accepts it. -/
theorem View.Consistent.advance (hs : v.Consistent alone s) {id : JobId}
    {signal : Signal} (hdue : Due v.pass id v.focus signal) :
    ∃ target, Shigoto.advance (s.phase id) signal = .ok target := by
  obtain ⟨pass, focus⟩ := v
  obtain ⟨hagrees, hrunning, -⟩ := hs
  cases hdue with
  | gates phase ctx outcomes news =>
    obtain ⟨rfl, hphase, -⟩ := hagrees
    refine ⟨_, advance_evaluateGates_iff.mpr ⟨?_, rfl⟩⟩
    rcases hphase with hphase | hphase <;> rw [hphase] <;> rfl
  | backoff untilMs nowMs elapsed =>
    exact ⟨_, advance_backoffElapsed_iff.mpr ⟨⟨untilMs, hagrees⟩, rfl⟩⟩
  | slot seeded => exact ⟨_, advance_allocateBudget_iff.mpr ⟨hagrees, rfl⟩⟩
  | retry outcome => exact ⟨_, advance_retryDecide_iff.mpr ⟨hagrees, rfl⟩⟩
  | success results =>
    exact ⟨_, advance_executionSucceeded_iff.mpr ⟨hrunning id List.mem_cons_self, rfl⟩⟩
  | failure results =>
    exact ⟨_, advance_executionFailed_iff.mpr ⟨hrunning id List.mem_cons_self, rfl⟩⟩

/-- When the view is sound, every move lands. -/
theorem View.Sound.lands (hs : v.Sound s) {c : Cmd} (hallows : v.Allows c) : c.Lands s := by
  cases c with
  | dispatch id signal => exact hs.advance hallows
  | overwrite id phase =>
    obtain ⟨source, hfocus, hadvance⟩ := hallows
    have hagrees := hs.agrees
    rw [hfocus] at hagrees
    obtain rfl : s.phase id = source := hagrees (.inl True.intro)
    show s.phase id ≠ .running
    obtain ⟨-, ⟨hsource, -⟩ | ⟨hsource, -⟩⟩ := advance_operatorTransition hadvance <;> simp [hsource]
  | _ => exact True.intro

/-- **What a caller knows stays so** when it acts, as long as its moves land. -/
theorem View.agrees_next (hagrees : v.focus.Agrees alone v.pass.dag s) {c : Cmd}
    (hallows : v.Allows c) (hlands : c.Lands s) :
    (v.next c (handle w c s).1).focus.Agrees alone (v.next c (handle w c s).1).pass.dag
      (handle w c s).2 := by
  obtain ⟨pass, focus⟩ := v
  cases c with
  | now =>
    -- asking for the time learns nothing about phases
    cases focus with
    | looked id phase =>
      cases phase with
      | retrying untilMs => exact hagrees (.inr rfl)
      | _ => exact hagrees
    | delayed id after => exact hagrees
    | _ => exact hagrees
  | phaseOf id => exact fun _ => rfl
  | readGates id =>
    have hlooked : focus = .looked id .pending ∨ focus = .looked id .gated := hallows
    rcases hlooked with rfl | rfl
    · exact ⟨hagrees (.inr rfl), .inl rfl, rfl, rfl, fun _ => rfl⟩
    · exact ⟨hagrees (.inr rfl), .inr rfl, rfl, rfl, fun _ => rfl⟩
  | consult gate ctx =>
    obtain ⟨id, phase, ahead, outcomes, rfl⟩ := hallows
    exact hagrees
  | dispatch id signal =>
    obtain ⟨target, hadvance⟩ := hlands
    have hanswer := answer_dispatch_ok w hadvance
    have hself : (handle w (.dispatch id signal) s).2.phase id = target := by
      rw [phase_dispatch_ok w hadvance, if_pos rfl]
    rw [hanswer]
    -- a signal that lands leaves the job where the table says
    have hdue : Due pass id focus signal := hallows
    cases hdue with
    | success results =>
      obtain rfl := (advance_executionSucceeded_iff.mp hadvance).2
      exact hself
    | failure results =>
      obtain rfl := (advance_executionFailed_iff.mp hadvance).2
      exact .inr hself
    | gates phase ctx outcomes news => exact True.intro
    | backoff untilMs nowMs elapsed => exact True.intro
    | slot seeded => exact True.intro
    | retry outcome => exact True.intro
  | tryAllocate id =>
    obtain ⟨rfl, -⟩ : focus = .looked id .ready ∧ _ := hallows
    cases hanswer : (handle w (.tryAllocate id) s).1 with
    | error e => exact True.intro
    | ok u => exact hagrees (.inr rfl)
  | readRetry id =>
    obtain ⟨n, rfl⟩ : ∃ n, focus = .looked id (.failed n) := hallows
    exact ⟨n, hagrees (.inr rfl)⟩
  | decide policy attempt history =>
    obtain ⟨id, rfl⟩ : ∃ id, focus = .judging id policy attempt history := hallows
    show Focus.Agrees alone (Focus.decided _ (handle w (.decide policy attempt history) s).1) _ _
    cases (handle w (.decide policy attempt history) s).1 <;> exact hagrees
  | runningOf wave => cases (handle w (.runningOf wave) s).1 <;> exact True.intro
  | lookupJob id =>
    obtain ⟨ids, tasks, rfl⟩ : ∃ ids tasks, focus = .collecting (id :: ids) tasks := hallows
    exact True.intro
  | spawn id job timeout =>
    obtain ⟨ids, tasks, rfl⟩ : ∃ ids tasks, focus = .fetched id job timeout ids tasks := hallows
    exact True.intro
  | recordFailure id =>
    obtain ⟨results, rfl⟩ : ∃ results, focus = .applying ((id, .error ()) :: results) := hallows
    exact True.intro
  | clearFailures id =>
    obtain ⟨results, rfl⟩ : ∃ results, focus = .succeeded id results := hallows
    exact .inl hagrees
  | release id =>
    obtain ⟨results, rfl⟩ : ∃ results, focus = .releasing id results := hallows
    exact True.intro
  | overwrite id phase =>
    obtain ⟨source, rfl, -⟩ := hallows
    exact fun _ => phaseIn_insert_self _ _ _
  | _ => exact True.intro

/-- **A consistent view stays consistent** when its caller acts, as long as its moves land. -/
theorem View.Consistent.next (hs : v.Consistent alone s) {c : Cmd} (hallows : v.Allows c)
    (hlands : c.Lands s) : (v.next c (handle w c s).1).Consistent alone (handle w c s).2 :=
  ⟨View.agrees_next w hs.agrees hallows hlands, View.running_next hallows hlands hs.running hs.nodup,
    View.nodup_next hallows hs.nodup⟩

end

/-! ## The induction rule -/

/-- The scheduler and its only caller agree. -/
def Sequential (m : SchedMachine) : Prop := (viewOf w 0 m.log).Sound m.state

/-- The only caller is between two calls. -/
def Resting (m : SchedMachine) : Prop := (viewOf w 0 m.log).Resting

theorem Sequential.start (s : InProcessScheduler) : Sequential w s.start :=
  View.Consistent.rest True _ s

theorem Resting.start (s : InProcessScheduler) : Resting w s.start := ⟨rfl, rfl⟩

variable {w}

theorem Sequential.step {m : SchedMachine} (hs : Sequential w m) {c : Cmd}
    (hallows : (viewOf w 0 m.log).Allows c) : Sequential w (m.step (handle w) 0 c) := by
  rw [Sequential, viewOf_step_self]
  exact View.Consistent.next w hs hallows (View.Sound.lands hs hallows)

/-- **The induction rule for sequences of calls**: what every command of an undisturbed caller
preserves holds after any sequence of calls in `P`. -/
theorem runCalls_induct {P : Call → Prop} {J : SchedMachine → Prop}
    (hstep : ∀ m c, Sequential w m → J m → (viewOf w 0 m.log).Allows c →
      c.Permitted P (viewOf w 0 m.log).pass.dag → J (m.step (handle w) 0 c))
    {calls : List Call} (hcalls : ∀ call ∈ calls, P call) {m : SchedMachine}
    (hs : Sequential w m) (hrest : Resting w m) (hJ : J m) :
    J (runCalls w calls m) ∧ Sequential w (runCalls w calls m) ∧
      Resting w (runCalls w calls m) := by
  have hrule := execAll_induct (handle w) (callProtocol P) (fun _ => CallFailed)
    (fun ℓ => (view ℓ).Resting) (fun m => J m ∧ Sequential w m) (calls.map Call.prog)
    (fun c s => answers_handle w P c s)
    (fun m c hm hc => ⟨hstep m c hm.2 hm.1 hc.1 hc.2, hm.2.step hc.1⟩)
    (fun m e hm he => ?_) (fun p hp ℓ hresting => ?_) hrest ⟨hJ, hs⟩
  · exact ⟨hrule.1.1, hrule.1.2, hrule.2⟩
  · -- a refusal is impossible: the caller's view is sound
    rcases he with hresting | hrefused
    · exact hresting
    · have hagrees := hm.2.agrees
      rw [viewOf, hrefused] at hagrees
      exact hagrees.elim
  · obtain ⟨call, hcall, rfl⟩ := List.mem_map.mp hp
    exact Call.obeys (hcalls call hcall) hresting

/-! ## Failed executions in a log -/

/-- The event records a failed execution of `id`. -/
def recordsFailure (id : JobId) (e : SchedEvent) : Bool :=
  match e.cmd with
  | .recordFailure id' => id' = id
  | _ => false

/-- How many executions of `id` have failed in a log. -/
def failedExecutions (id : JobId) (log : List SchedEvent) : Nat := log.countP (recordsFailure id)

theorem failedExecutions_le_cons (id : JobId) (e : SchedEvent) (log : List SchedEvent) :
    failedExecutions id log ≤ failedExecutions id (e :: log) :=
  List.Sublist.countP_le (List.sublist_cons_self e log)

theorem failedExecutions_recordFailure (id : JobId) (t : Nat) (s : InProcessScheduler)
    (log : List SchedEvent) :
    failedExecutions id (⟨t, .recordFailure id, s⟩ :: log) = failedExecutions id log + 1 := by
  simp [failedExecutions, recordsFailure]

theorem failedExecutions_cons_of_ne {id : JobId} {c : Cmd} (h : c ≠ .recordFailure id) (t : Nat)
    (s : InProcessScheduler) (log : List SchedEvent) :
    failedExecutions id (⟨t, c, s⟩ :: log) = failedExecutions id log := by
  have hnot : recordsFailure id ⟨t, c, s⟩ = false := by
    cases c with
    | recordFailure id' =>
      have hne : id' ≠ id := fun hid => h (by rw [hid])
      simp [recordsFailure, hne]
    | _ => rfl
  simp [failedExecutions, hnot]

end Shigoto
