import Shigoto.Scheduler.BudgetSafety
import Shigoto.Scheduler.Lifecycle
import Mathlib.Algebra.Order.BigOperators.Group.Finset

/-!
# Several drivers on one scheduler

`tick` reads a phase in one critical section and acts on it in another. Another tick may act in between,
so what was decided on a phase can come when the job is in another one, and a Running job can be collected by
two ticks. On every interleaving in which neither happens, and in which PASS 3 takes no slot, no tick
fails, each start of a job is followed by one execution and one applied result, and when all ticks have
returned the counters of the budget are the numbers of Running jobs.
-/

namespace Shigoto

open Atomic BudgetTree

variable {w : World} {n : Nat}

/-! ## The life of a job -/

inductive Stage
  | idle
  | started
  | executing
  deriving DecidableEq

/-- What an event does with `id`: it becomes Running, is executed, and its result is applied. -/
def runTurn (id : JobId) (e : SchedEvent) : Option (Stage × Stage) :=
  match e.cmd with
  | .dispatch id' signal =>
    if id' = id ∧ (advance (e.pre.phase id') signal).isOk = true then
      match signal with
      | .allocateBudget => some (.idle, .started)
      | .executionSucceeded | .executionFailed => some (.executing, .idle)
      | _ => none
    else none
  | .spawn id' _ _ => if id' = id then some (.started, .executing) else none
  | _ => none

/-- The stage of a job, given whether it is Running and the jobs that are executed. -/
def stageOf (phase : JobPhase) (executed : List JobId) (id : JobId) : Stage :=
  if phase = .running then if id ∈ executed then .executing else .started else .idle

section

variable {phase : JobPhase} {executed : List JobId} {id : JobId}

theorem stageOf_idle (h : phase ≠ .running) : stageOf phase executed id = .idle := if_neg h

theorem stageOf_started (h : phase = .running) (hid : id ∉ executed) :
    stageOf phase executed id = .started := by
  rw [stageOf, if_pos h, if_neg hid]

theorem stageOf_executing (h : phase = .running) (hid : id ∈ executed) :
    stageOf phase executed id = .executing := by
  rw [stageOf, if_pos h, if_pos hid]

end

/-- The stage that `id` is in after a log that began in `s`, if it only made turns in this order. -/
def lifecycle (s : InProcessScheduler) (id : JobId) (log : List SchedEvent) : Option Stage :=
  follow (runTurn id) (stageOf (s.phase id) [] id) log

/-- The event makes `id` Running. -/
def starts (id : JobId) (e : SchedEvent) : Bool := runTurn id e = some (.idle, .started)

/-! ## Collisions -/

/-- The signal reports the result of an execution. -/
def isResult : Signal → Bool
  | .executionSucceeded | .executionFailed => true
  | _ => false

theorem isResult_iff {signal : Signal} :
    isResult signal = true ↔ signal = .executionSucceeded ∨ signal = .executionFailed := by
  cases signal <;> simp [isResult]

/-- The phases in which a decision still stands that a driver made on the phase it read: a gate verdict while the
job is still to be evaluated, a slot while it is Ready, the end of a backoff while it is Retrying, and what the
retry policy said while it is Failed. -/
def Focus.stands : Focus → JobPhase → Bool
  | .consulting _ _ _ _ _, phase => phase.evaluable
  | .granted _, phase => phase = .ready
  | .clocked _ _ _, .retrying _ => true
  | .clocked _ _ _, _ => false
  | .planned _ _, phase => phase.isFailed
  | _, _ => true

/-- Since a driver read the phase of a job, the job was left in one in which the driver's decision does not
stand. -/
def outdated (w : World) (e : SchedEvent) (past : List SchedEvent) : Bool :=
  match e.cmd with
  | .dispatch id _ => !(viewOf w e.tid past).focus.stands (e.pre.phase id)
  | _ => false

/-- A job is collected that another of `n` drivers has in flight. -/
def collectsTwice (w : World) (n : Nat) (e : SchedEvent) (past : List SchedEvent) : Bool :=
  match e.cmd with
  | .runningOf wave => (List.range n).any fun u =>
    decide (u ≠ e.tid) && wave.any fun id => decide (id ∈ (viewOf w u past).focus.flight)
  | _ => false

/-- The drivers do not get in each other's way, PASS 3 takes no slot, and nothing panics. -/
def Apart (w : World) (n : Nat) (log : List SchedEvent) : Prop :=
  Meets (fun e past => outdated w e past = false ∧ collectsTwice w n e past = false ∧
    lateGrant w e past = false ∧ panics w e = false) log

instance (w : World) (n : Nat) (log : List SchedEvent) : Decidable (Apart w n log) :=
  inferInstanceAs (Decidable (Meets _ log))

/-! ## The invariant -/

/-- What the drivers owe together. -/
def owedBy (w : World) (n : Nat) (log : List SchedEvent) : Multiset JobId :=
  ∑ t ∈ Finset.range n, (viewOf w t log).focus.owed

/-- The jobs whose execution is under way or not applied yet. -/
def executedBy (w : World) (n : Nat) (log : List SchedEvent) : List JobId :=
  (List.range n).flatMap fun t => (viewOf w t log).focus.executed

/-- What an interleaving of `n` drivers that stay apart keeps; `s` is where it began. -/
structure Drivers (w : World) (n : Nat) (s : InProcessScheduler) (m : SchedMachine) : Prop where
  running : ∀ t < n, ∀ id ∈ (viewOf w t m.log).focus.flight, m.state.phase id = .running
  nodup : ∀ t < n, (viewOf w t m.log).focus.flight.Nodup
  disjoint : ∀ t < n, ∀ u < n, t ≠ u →
    List.Disjoint (viewOf w t m.log).focus.flight (viewOf w u m.log).focus.flight
  complete : ∀ t < n, (viewOf w t m.log).focus.Complete
  accepted : ∀ t < n, (viewOf w t m.log).focus ≠ .refused
  early : ∀ t < n, ∀ id, (viewOf w t m.log).focus = .granted id → (viewOf w t m.log).pass.final = false
  expects : ∀ id, (∃ e ∈ m.log, starts id e = true) → m.state.phase id = .running →
    ∃ t < n, (viewOf w t m.log).Expects id
  held : heldSlots s.running m.log = owedBy w n m.log + m.state.running
  books : Books (4294967296 - n) m.state (heldSlots s.running m.log)
  stages : ∀ id, lifecycle s id m.log = some (stageOf (m.state.phase id) (executedBy w n m.log) id)

/-! ## One step -/

/-- **Decisions are carried out exactly where they stand.** -/
theorem Due.stands_iff {pass : Pass} {focus : Focus} {id : JobId} {signal : Signal} {phase : JobPhase}
    (hdue : Due pass id focus signal) (hresult : isResult signal = false) :
    focus.stands phase = true ↔ ∃ target, advance phase signal = .ok target := by
  cases hdue with
  | gates source ctx outcomes news => simp [Focus.stands, advance_evaluateGates_iff]
  | backoff untilMs nowMs elapsed => cases phase <;> simp [Focus.stands, advance_backoffElapsed_iff]
  | slot seeded => simp [Focus.stands, advance_allocateBudget_iff]
  | retry outcome => cases phase <;> simp [Focus.stands, JobPhase.isFailed, advance_retryDecide_iff]
  | success results => cases hresult
  | failure results => cases hresult

theorem mem_executedBy {log : List SchedEvent} {id : JobId} :
    id ∈ executedBy w n log ↔ ∃ t, t < n ∧ id ∈ (viewOf w t log).focus.executed := by
  simp [executedBy]

section

variable {s : InProcessScheduler} {m : SchedMachine} {u : Nat} {c : Cmd} (h : Drivers w n s m)
  (hu : u < n) (hallows : (viewOf w u m.log).Allows c)

include h hu hallows

/-- The moves of a driver land: results because what is in flight is Running, the others by
assumption. -/
theorem Drivers.lands {dag : Dag} (hpermitted : c.Permitted (fun call => ∃ dag, call = .tick dag) dag)
    (hfresh : outdated w ⟨u, c, m.state⟩ m.log = false) : c.Lands m.state := by
  cases c with
  | dispatch id signal =>
    cases hresult : isResult signal with
    | true =>
      have hsignal := isResult_iff.mp hresult
      rw [Cmd.Lands, h.running u hu id (Due.mem_flight hallows hsignal)]
      rcases hsignal with rfl | rfl <;> exact ⟨_, rfl⟩
    | false =>
      have hstands : (viewOf w u m.log).focus.stands (m.state.phase id) = true := by
        simpa [outdated] using hfresh
      exact (Due.stands_iff hallows hresult).mp hstands
  | overwrite id phase =>
    obtain ⟨reason, dag, htick⟩ := hpermitted
    exact Call.noConfusion htick
  | _ => exact True.intro

variable (hlands : c.Lands m.state)

include hlands

/-- What another driver has in flight stays Running. -/
theorem Drivers.running_other (hord : c.ordinary = true) {t : Nat} (ht : t < n) (hne : t ≠ u) :
    ∀ id ∈ (viewOf w t m.log).focus.flight, (handle w c m.state).2.phase id = .running := by
  intro id hid
  have hdisjoint := h.disjoint t ht u hu hne hid
  rcases View.running_of_lands (w := w) hallows hlands
    (Cmd.ne_restoreState hord) (h.running t ht id hid) with hstays | rfl | rfl
  · exact hstays
  · exact absurd (Due.mem_flight hallows (.inl rfl)) hdisjoint
  · exact absurd (Due.mem_flight hallows (.inr rfl)) hdisjoint

omit hlands in
/-- A job is put in flight by one driver only. -/
theorem Drivers.disjoint_other (hcollect : collectsTwice w n ⟨u, c, m.state⟩ m.log = false)
    {t : Nat} (ht : t < n) (hne : t ≠ u) : List.Disjoint (viewOf w t m.log).focus.flight
      ((viewOf w u m.log).next c (handle w c m.state).1).focus.flight := by
  intro id hid hmine
  by_cases hc : ∃ wave, c = .runningOf wave
  · obtain ⟨wave, rfl⟩ := hc
    rw [View.flight_runningOf] at hmine
    simp only [collectsTwice, List.any_eq_false] at hcollect
    have hnone := hcollect t (List.mem_range.mpr ht)
    simp only [Bool.and_eq_true, decide_eq_true_eq, List.any_eq_true, not_and, not_exists] at hnone
    exact hnone hne id (mem_runningOf.mp hmine).1 hid
  · have hflight := View.flight_next hallows
      (answers_handle w (fun _ => True) c m.state) fun wave hwave => hc ⟨wave, hwave⟩
    exact h.disjoint t ht u hu hne hid (hflight.subset hmine)

end

/-! ## Stages -/

/-- An event that neither starts nor ends nor executes `id` is no turn of it. -/
theorem runTurn_none {s : InProcessScheduler} {c : Cmd} {u : Nat} {id : JobId} (hlands : c.Lands s)
    (hspawn : ∀ job timeout, c ≠ .spawn id job timeout)
    (hsame : (handle w c s).2.phase id = .running ↔ s.phase id = .running) :
    runTurn id ⟨u, c, s⟩ = none := by
  cases c with
  | dispatch id' signal =>
    by_cases hid : id' = id
    · subst hid
      obtain ⟨target, hadvance⟩ := hlands
      rw [phase_dispatch_ok w hadvance, if_pos rfl] at hsame
      cases signal with
      | allocateBudget =>
        obtain ⟨hsource, rfl⟩ := advance_allocateBudget_iff.mp hadvance
        simp [hsource] at hsame
      | executionSucceeded =>
        obtain ⟨hsource, rfl⟩ := advance_executionSucceeded_iff.mp hadvance
        simp [hsource] at hsame
      | executionFailed =>
        obtain ⟨hsource, rfl⟩ := advance_executionFailed_iff.mp hadvance
        simp [hsource] at hsame
      | _ => simp [runTurn]
    · simp [runTurn, hid]
  | spawn id' job timeout =>
    have hid : id' ≠ id := fun hid => hspawn job timeout (by rw [hid])
    simp [runTurn, hid]
  | _ => rfl

theorem runTurn_start {s : InProcessScheduler} {u : Nat} {id : JobId}
    (hlands : Cmd.Lands s (.dispatch id .allocateBudget)) :
    runTurn id ⟨u, .dispatch id .allocateBudget, s⟩ = some (.idle, .started) := by
  obtain ⟨target, hadvance⟩ := hlands
  simp [runTurn, hadvance, Except.isOk, Except.toBool]

theorem runTurn_result {s : InProcessScheduler} {u : Nat} {id : JobId} {signal : Signal}
    (hlands : Cmd.Lands s (.dispatch id signal))
    (hsignal : signal = .executionSucceeded ∨ signal = .executionFailed) :
    runTurn id ⟨u, .dispatch id signal, s⟩ = some (.executing, .idle) := by
  obtain ⟨target, hadvance⟩ := hlands
  rcases hsignal with rfl | rfl <;> simp [runTurn, hadvance, Except.isOk, Except.toBool]

theorem mem_executedBy_split {u : Nat} (hu : u < n) {log : List SchedEvent} {id : JobId} :
    id ∈ executedBy w n log ↔ id ∈ (viewOf w u log).focus.executed ∨
      ∃ t < n, t ≠ u ∧ id ∈ (viewOf w t log).focus.executed := by
  rw [mem_executedBy]
  constructor
  · rintro ⟨t, ht, hid⟩
    by_cases htu : t = u
    · exact .inl (htu ▸ hid)
    · exact .inr ⟨t, ht, htu, hid⟩
  · rintro (hid | ⟨t, ht, -, hid⟩)
    · exact ⟨u, hu, hid⟩
    · exact ⟨t, ht, hid⟩

/-- Who executes a job after a step of driver `u`. -/
theorem mem_executedBy_step {u : Nat} (hu : u < n) {c : Cmd} {m : SchedMachine} {id : JobId} :
    id ∈ executedBy w n (m.step (handle w) u c).log ↔
      id ∈ ((viewOf w u m.log).next c (handle w c m.state).1).focus.executed ∨
        ∃ t < n, t ≠ u ∧ id ∈ (viewOf w t m.log).focus.executed := by
  rw [mem_executedBy_split hu, viewOf_step_self]
  apply or_congr_right
  refine exists_congr fun t => and_congr_right fun _ => and_congr_right fun htu => ?_
  rw [viewOf_step_ne w (Ne.symm htu)]

theorem Focus.executed_subset_flight (focus : Focus) : focus.executed ⊆ focus.flight := by
  rw [flight_eq]
  exact List.subset_append_right _ _

section

variable {s : InProcessScheduler} {m : SchedMachine} {u : Nat} (h : Drivers w n s m) (hu : u < n)

include h hu

/-- A job that is spawned is not executed yet. -/
theorem Drivers.not_executed_of_spawn {id : JobId} {job : Option ErasedJob} {timeout : Option Duration}
    (hallows : (viewOf w u m.log).Allows (.spawn id job timeout)) : id ∉ executedBy w n m.log := by
  obtain ⟨hahead, -⟩ :=
    View.work_spawn hallows (handle w (.spawn id job timeout) m.state).1
  have hflight : id ∈ (viewOf w u m.log).focus.flight := by
    rw [Focus.flight_eq, hahead]
    exact List.mem_cons_self
  rw [mem_executedBy_split hu]
  rintro (hmine | ⟨t, ht, htu, hother⟩)
  · have hnodup := h.nodup u hu
    rw [Focus.flight_eq, hahead] at hnodup
    exact (List.nodup_cons.mp hnodup).1 (List.mem_append_right _ hmine)
  · exact h.disjoint t ht u hu htu (Focus.executed_subset_flight _ hother) hflight

/-- A started job is handed to a task. -/
theorem Drivers.stages_spawn {id : JobId} {job : Option ErasedJob} {timeout : Option Duration}
    (hallows : (viewOf w u m.log).Allows (.spawn id job timeout)) (hbefore : m.state.phase id = .running)
    (hafter : (m.step (handle w) u (.spawn id job timeout)).state.phase id = .running) :
    lifecycle s id (m.step (handle w) u (.spawn id job timeout)).log =
      some (stageOf ((m.step (handle w) u (.spawn id job timeout)).state.phase id)
        (executedBy w n (m.step (handle w) u (.spawn id job timeout)).log) id) := by
  have hpast := h.stages id
  have hturn : runTurn id ⟨u, .spawn id job timeout, m.state⟩ = some (.started, .executing) := by
    simp [runTurn]
  rw [stageOf_started hbefore (h.not_executed_of_spawn hu hallows)] at hpast
  refine (follow_cons_some hturn hpast).trans (congrArg some (stageOf_executing hafter ?_).symm)
  obtain ⟨-, hspawned, -⟩ :=
    View.work_spawn hallows (handle w (.spawn id job timeout) m.state).1
  have hid : (handle w (.spawn id job timeout) m.state).1.id = id := by cases job <;> rfl
  rw [mem_executedBy_step hu]
  left
  simp [Focus.executed, hspawned, hid]

section

variable {c : Cmd} (hallows : (viewOf w u m.log).Allows c) (hlands : c.Lands m.state)

include hallows hlands

/-- Nothing happens to a Running job, and its task stays with whoever holds it. -/
theorem Drivers.stages_quiet {id : JobId} (hquiet : ∀ job timeout, c ≠ .spawn id job timeout)
    (hbefore : m.state.phase id = .running) (hafter : (m.step (handle w) u c).state.phase id = .running) :
    lifecycle s id (m.step (handle w) u c).log =
      some (stageOf ((m.step (handle w) u c).state.phase id)
        (executedBy w n (m.step (handle w) u c).log) id) := by
  have hturn : runTurn id ⟨u, c, m.state⟩ = none :=
    runTurn_none hlands hquiet (iff_of_true hafter hbefore)
  refine (follow_cons_none hturn).trans ((h.stages id).trans (congrArg some ?_))
  have hmem : id ∈ executedBy w n (m.step (handle w) u c).log ↔ id ∈ executedBy w n m.log := by
    rw [mem_executedBy_step hu, mem_executedBy_split hu,
      View.mem_executed_next hallows hlands (h.complete u hu) hquiet hafter]
  simp only [stageOf, hbefore, hafter, hmem]

variable (hord : c.ordinary = true)

include hord

/-- A Running job leaves its phase when the result of its execution is applied. -/
theorem Drivers.stages_result {id : JobId} (hbefore : m.state.phase id = .running)
    (hafter : (m.step (handle w) u c).state.phase id ≠ .running) :
    lifecycle s id (m.step (handle w) u c).log =
      some (stageOf ((m.step (handle w) u c).state.phase id)
        (executedBy w n (m.step (handle w) u c).log) id) := by
  have hpast := h.stages id
  obtain ⟨signal, rfl, hsignal⟩ : ∃ signal, c = .dispatch id signal ∧
      (signal = .executionSucceeded ∨ signal = .executionFailed) := by
    rcases (View.running_of_lands (w := w) hallows hlands
      (Cmd.ne_restoreState hord) hbefore).resolve_left hafter with rfl | rfl
    · exact ⟨_, rfl, .inl rfl⟩
    · exact ⟨_, rfl, .inr rfl⟩
  have hexecuted : id ∈ executedBy w n m.log := by
    rw [mem_executedBy_split hu]
    left
    rcases Due.work_dispatched hallows with ⟨hrest, -⟩ | ⟨-, -, hcons, -⟩
    · have hflight := Due.mem_flight hallows hsignal
      rw [hrest.flight] at hflight
      exact absurd hflight List.not_mem_nil
    · rw [hcons]
      exact List.mem_cons_self
  rw [stageOf_executing hbefore hexecuted] at hpast
  exact (follow_cons_some (runTurn_result hlands hsignal) hpast).trans
    (congrArg some (stageOf_idle hafter).symm)

/-- A job that comes to run is started, and nobody executes it yet. -/
theorem Drivers.stages_start {id : JobId} (hbefore : m.state.phase id ≠ .running)
    (hafter : (m.step (handle w) u c).state.phase id = .running) :
    lifecycle s id (m.step (handle w) u c).log =
      some (stageOf ((m.step (handle w) u c).state.phase id)
        (executedBy w n (m.step (handle w) u c).log) id) := by
  have hpast := h.stages id
  rw [stageOf_idle hbefore] at hpast
  obtain ⟨hgranted, rfl, -⟩ :=
    View.granted_of_started hallows (Cmd.ne_restoreState hord) hbefore hafter
  refine (follow_cons_some (runTurn_start hlands) hpast).trans
    (congrArg some (stageOf_started hafter ?_).symm)
  rw [mem_executedBy_step hu]
  rintro (hmine | ⟨t, ht, htu, hother⟩)
  · obtain ⟨target, hadvance⟩ := hlands
    rw [answer_dispatch_ok w hadvance] at hmine
    have hexecuted : (viewOf w u m.log).focus.dispatched.executed = [] := by
      rw [hgranted]
      rfl
    exact absurd (hexecuted ▸ hmine) List.not_mem_nil
  · exact hbefore (h.running t ht id (Focus.executed_subset_flight _ hother))

theorem Drivers.stages_step (id : JobId) :
    lifecycle s id (m.step (handle w) u c).log =
      some (stageOf ((m.step (handle w) u c).state.phase id)
        (executedBy w n (m.step (handle w) u c).log) id) := by
  by_cases hbefore : m.state.phase id = .running
  · by_cases hafter : (m.step (handle w) u c).state.phase id = .running
    · by_cases hspawn : ∃ job timeout, c = .spawn id job timeout
      · obtain ⟨job, timeout, rfl⟩ := hspawn
        exact h.stages_spawn hu hallows hbefore hafter
      · have hquiet : ∀ job timeout, c ≠ .spawn id job timeout := fun job timeout hc =>
          hspawn ⟨job, timeout, hc⟩
        exact h.stages_quiet hu hallows hlands hquiet hbefore hafter
    · exact h.stages_result hu hallows hlands hord hbefore hafter
  · by_cases hafter : (m.step (handle w) u c).state.phase id = .running
    · exact h.stages_start hu hallows hlands hord hbefore hafter
    · -- only Running jobs are spawned, so the idle job stays idle
      have hspawn : ∀ job timeout, c ≠ .spawn id job timeout := by
        rintro job timeout rfl
        obtain ⟨hahead, -⟩ :=
          View.work_spawn hallows (handle w (.spawn id job timeout) m.state).1
        refine hbefore (h.running u hu id ?_)
        rw [Focus.flight_eq, hahead]
        exact List.mem_cons_self
      have hpast := h.stages id
      rw [stageOf_idle hbefore] at hpast
      apply (follow_cons_none (runTurn_none hlands hspawn (iff_of_false hafter hbefore))).trans
      exact hpast.trans (congrArg some (stageOf_idle hafter).symm)

end

end

/-! ## Slots -/

theorem Focus.card_owed_le (focus : Focus) : Multiset.card focus.owed ≤ 1 := by
  cases focus <;> simp [owed]

/-- What the drivers other than `u` owe. -/
def owedByOthers (w : World) (n u : Nat) (log : List SchedEvent) : Multiset JobId :=
  ∑ t ∈ (Finset.range n).erase u, (viewOf w t log).focus.owed

theorem owedBy_eq {u : Nat} (hu : u < n) (log : List SchedEvent) :
    owedBy w n log = (viewOf w u log).focus.owed + owedByOthers w n u log :=
  (Finset.add_sum_erase _ _ (Finset.mem_range.mpr hu)).symm

theorem owedByOthers_step (u : Nat) (c : Cmd) (m : SchedMachine) :
    owedByOthers w n u (m.step (handle w) u c).log = owedByOthers w n u m.log :=
  Finset.sum_congr rfl fun t ht => by
    rw [viewOf_step_ne w (Finset.ne_of_mem_erase ht).symm]

theorem card_owedByOthers_lt {u : Nat} (hu : u < n) (log : List SchedEvent) :
    Multiset.card (owedByOthers w n u log) + 1 ≤ n := by
  have hcard : ((Finset.range n).erase u).card = n - 1 := by
    rw [Finset.card_erase_of_mem (Finset.mem_range.mpr hu), Finset.card_range]
  have hsum : Multiset.card (owedByOthers w n u log) ≤ ((Finset.range n).erase u).card := by
    rw [owedByOthers, Multiset.card_sum, Finset.card_eq_sum_ones]
    exact Finset.sum_le_sum fun t _ => Focus.card_owed_le _
  omega

section

variable {s : InProcessScheduler} {m : SchedMachine} {u : Nat} (h : Drivers w n s m) (hu : u < n)
  {c : Cmd} (hallows : (viewOf w u m.log).Allows c) (hlands : c.Lands m.state)
  (hord : c.ordinary = true)

include h hu hallows hlands hord

theorem Drivers.held_step : heldSlots s.running (m.step (handle w) u c).log =
    owedBy w n (m.step (handle w) u c).log + (m.step (handle w) u c).state.running := by
  have hnext := held_next (w := w) hallows hlands hord (owedByOthers w n u m.log)
  rw [owedBy_eq hu, owedByOthers_step, viewOf_step_self, add_right_comm]
  show slotsAfter m.state (heldSlots s.running m.log) c = _
  rw [h.held, owedBy_eq hu, add_right_comm]
  exact hnext.symm

theorem Drivers.books_step : Books (4294967296 - n) (m.step (handle w) u c).state
    (heldSlots s.running (m.step (handle w) u c).log) := by
  refine h.books.next hord (fun id hid hsize => ?_) fun id hid => ?_
  · subst hid
    have hfocus := hallows.1
    have howed : (viewOf w u m.log).focus.owed = 0 := by rw [hfocus]; rfl
    have hothers := card_owedByOthers_lt (w := w) hu m.log
    have hrunning := m.state.card_running_le
    rw [h.held, owedBy_eq hu, howed, Multiset.zero_add, Multiset.card_add]
    omega
  · subst hid
    rw [h.held, owedBy_eq hu]
    exact Multiset.mem_add.mpr (.inl (Multiset.mem_add.mpr (.inl (View.owed_of_release hallows))))

end

/-! ## The invariant is kept -/

/-- Only an accepted grant starts a job. -/
theorem of_starts {s : InProcessScheduler} {c : Cmd} {u : Nat} {id : JobId}
    (h : starts id ⟨u, c, s⟩ = true) : s.phase id = .ready := by
  have hturn : runTurn id ⟨u, c, s⟩ = some (.idle, .started) := of_decide_eq_true h
  cases c with
  | dispatch id' signal =>
    simp only [runTurn] at hturn
    split at hturn
    · next hid =>
      obtain ⟨rfl, hok⟩ := hid
      cases signal with
      | allocateBudget =>
        cases hadvance : advance (s.phase id') .allocateBudget with
        | ok target => exact (advance_allocateBudget_iff.mp hadvance).1
        | error e => simp [hadvance, Except.isOk, Except.toBool] at hok
      | _ => simp at hturn
    · simp at hturn
  | spawn id' job timeout => simp [runTurn] at hturn
  | _ => simp [runTurn] at hturn

theorem Due.dispatched_ne_refused {pass : Pass} {focus : Focus} {id : JobId} {signal : Signal}
    (hdue : Due pass id focus signal) : focus.dispatched ≠ .refused := by
  cases hdue <;> simp [Focus.dispatched]

/-- Only the driver that acts takes up jobs, and none that another has in flight. -/
theorem Drivers.disjoint_step {s : InProcessScheduler} {m : SchedMachine} {u : Nat} (h : Drivers w n s m)
    (hu : u < n) {c : Cmd} (hallows : (viewOf w u m.log).Allows c)
    (hcollect : collectsTwice w n ⟨u, c, m.state⟩ m.log = false) {t t' : Nat} (ht : t < n) (ht' : t' < n)
    (hne : t ≠ t') :
    (viewOf w t (m.step (handle w) u c).log).focus.flight.Disjoint
      (viewOf w t' (m.step (handle w) u c).log).focus.flight := by
  rw [viewOf_step, viewOf_step]
  split
  · next htu =>
    rw [if_neg fun htu' => hne (htu.trans htu'.symm)]
    exact (h.disjoint_other hu hallows hcollect ht' fun htu' => hne (htu.trans htu'.symm)).symm
  · next htu =>
    split
    · exact h.disjoint_other hu hallows hcollect ht htu
    · exact h.disjoint t ht t' ht' hne

/-- A signal that is due lands, so no driver is ever refused. -/
theorem Drivers.accepted_step {s : InProcessScheduler} {m : SchedMachine} {u : Nat} (h : Drivers w n s m)
    {c : Cmd} (hallows : (viewOf w u m.log).Allows c) (hlands : c.Lands m.state) {t : Nat} (ht : t < n) :
    (viewOf w t (m.step (handle w) u c).log).focus ≠ .refused := by
  rw [viewOf_step]
  split
  · intro hrefused
    have hleads := (View.leadsTo_next (r := (handle w c m.state).1) hallows).resolve_left
      (by simp [hrefused, Focus.idle])
    cases c with
    | dispatch id signal =>
      obtain ⟨target, hadvance⟩ := hlands
      rw [answer_dispatch_ok w hadvance] at hrefused
      exact Due.dispatched_ne_refused hallows hrefused
    | _ => simp [hrefused, Cmd.LeadsTo] at hleads
  · exact h.accepted t ht

/-- A job that starts is expected by the driver that starts it. -/
theorem Drivers.expects_step {s : InProcessScheduler} {m : SchedMachine} {u : Nat} (h : Drivers w n s m)
    (hu : u < n) {c : Cmd} (hallows : (viewOf w u m.log).Allows c) (hlands : c.Lands m.state)
    (hord : c.ordinary = true) {id : JobId}
    (hstarted : ∃ e ∈ (m.step (handle w) u c).log, starts id e = true)
    (hafter : (m.step (handle w) u c).state.phase id = .running) :
    ∃ t < n, (viewOf w t (m.step (handle w) u c).log).Expects id := by
  by_cases hbefore : m.state.phase id = .running
  · obtain ⟨e, he, hstarts⟩ := hstarted
    rcases List.mem_cons.mp he with rfl | he
    · exact absurd (of_starts hstarts) (by simp [hbefore])
    · obtain ⟨t, ht, hexpects⟩ := h.expects id ⟨e, he, hstarts⟩ hbefore
      refine ⟨t, ht, ?_⟩
      rw [viewOf_step]
      split
      · next htu =>
        exact View.expects_next hallows hlands (h.complete u hu) hbefore hafter (htu ▸ hexpects)
      · exact hexpects
  · obtain ⟨hgranted, rfl, hseeded⟩ :=
      View.granted_of_started hallows (Cmd.ne_restoreState hord) hbefore hafter
    have hfinal := h.early u hu id hgranted
    refine ⟨u, hu, .inr ?_⟩
    rw [viewOf_step_self, View.pass_next (by simp) (by simp) (by simp)]
    exact ⟨hfinal, hseeded hfinal⟩

theorem Drivers.step {s : InProcessScheduler} {m : SchedMachine} {u : Nat} (h : Drivers w n s m)
    (hu : u < n) {c : Cmd} (hallows : (viewOf w u m.log).Allows c) {dag : Dag}
    (hpermitted : c.Permitted (fun call => ∃ dag, call = .tick dag) dag)
    (hfresh : outdated w ⟨u, c, m.state⟩ m.log = false)
    (hcollect : collectsTwice w n ⟨u, c, m.state⟩ m.log = false)
    (hlate : lateGrant w ⟨u, c, m.state⟩ m.log = false)
    (hpanic : panics w ⟨u, c, m.state⟩ = false) : Drivers w n s (m.step (handle w) u c) := by
  have hlands := h.lands hu hallows hpermitted hfresh
  have hord : c.ordinary = true := by
    cases c with
    | installBudget budget => exact hpermitted.elim fun dag htick => Call.noConfusion htick
    | restoreState saved => exact hpermitted.elim fun dag htick => Call.noConfusion htick
    | _ => rfl
  refine
    { running := fun t ht => ?_
      nodup := fun t ht => ?_
      disjoint := fun t ht t' ht' hne => h.disjoint_step hu hallows hcollect ht ht' hne
      complete := fun t ht => ?_
      accepted := fun t ht => h.accepted_step hallows hlands ht
      early := fun t ht id => ?_
      expects := fun id => h.expects_step hu hallows hlands hord
      held := h.held_step hu hallows hlands hord
      books := h.books_step hu hallows hlands hord
      stages := h.stages_step hu hallows hlands hord }
  · rw [viewOf_step]
    split
    · exact View.running_next hallows hlands (h.running u hu) (h.nodup u hu)
    · next htu => exact h.running_other hu hallows hlands hord ht htu
  · rw [viewOf_step]
    split
    · exact View.nodup_next hallows (h.nodup u hu)
    · exact h.nodup t ht
  · rw [viewOf_step]
    split
    · exact (h.complete u hu).next hallows hpanic
    · exact h.complete t ht
  · rw [viewOf_step]
    split
    · intro hgranted
      obtain ⟨rfl, hslack⟩ := View.granted_next hallows hgranted
      rw [View.pass_next (by simp) (by simp) (by simp)]
      simpa [lateGrant, hslack] using hlate
    · exact h.early t ht id

/-! ## The result -/

/-- The protocol of driver `t` of `n`: it only ticks. -/
def driverProtocol (n t : Nat) : Protocol schedInterface :=
  callersProtocol n (fun _ call => ∃ dag, call = .tick dag) t

/-- Several ticks on one scheduler. -/
def drivers (s : InProcessScheduler) (dags : List Dag) :
    Config schedInterface InProcessScheduler SchedulerError TickReceipt :=
  ⟨s.start, dags.map tick⟩

theorem drivers_obey (s : InProcessScheduler) (dags : List Dag) :
    (drivers s dags).AllObey (handle w) (driverProtocol dags.length)
      (fun _ _ ℓ => (view ℓ).Resting) (fun _ => TickFailed) := by
  intro t p hp
  obtain ⟨dag, hdag, rfl⟩ : ∃ dag, dags[t]? = some dag ∧ tick dag = p := by simpa [drivers] using hp
  obtain ⟨ht, -⟩ := List.getElem?_eq_some_iff.mp hdag
  exact Keeps.caller (tick_keeps (P := fun call => ∃ dag, call = .tick dag) ⟨dag, rfl⟩ ⟨rfl, rfl⟩) ht

theorem Drivers.start {s : InProcessScheduler} (hbooks : Books (4294967296 - n) s s.running) :
    Drivers w n s s.start where
  running t _ id hid := absurd hid List.not_mem_nil
  nodup t _ := List.nodup_nil
  disjoint t _ u _ _ := List.disjoint_nil_left _
  complete t _ task htask := absurd htask List.not_mem_nil
  accepted t _ := by simp [viewOf, InProcessScheduler.start, history, view, View.start]
  early t _ id := by simp [viewOf, InProcessScheduler.start, history, view, View.start]
  expects id hstarted := by simp [InProcessScheduler.start] at hstarted
  held := by
    have howed : owedBy w n s.start.log = 0 := Finset.sum_eq_zero fun t _ => rfl
    rw [howed, Multiset.zero_add]
    rfl
  books := hbooks
  stages id := by
    refine congrArg some (?_ : stageOf (s.phase id) [] id = stageOf (s.phase id) _ id)
    have hnone : id ∉ executedBy w n s.start.log := by
      rw [mem_executedBy]
      rintro ⟨t, -, hid⟩
      exact List.not_mem_nil hid
    simp [stageOf, hnone]

/-- Under every schedule on which they stay apart. -/
theorem drivers_run {s : InProcessScheduler} {dags : List Dag}
    (hbooks : Books (4294967296 - dags.length) s s.running) (schedule : List Nat)
    (hapart : Apart w dags.length ((drivers s dags).run (handle w) schedule).machine.log) :
    Drivers w dags.length s ((drivers s dags).run (handle w) schedule).machine ∧
      ((drivers s dags).run (handle w) schedule).AllObey (handle w) (driverProtocol dags.length)
        (fun _ _ ℓ => (view ℓ).Resting) (fun _ => TickFailed) := by
  have hrun := Config.run_induct (handle w) (driverProtocol dags.length)
    (fun _ _ ℓ => (view ℓ).Resting) (fun _ => TickFailed)
    (fun m => Apart w dags.length m.log → Drivers w dags.length s m)
    (fun t c s => answers_handle w (fun _ => True) c s)
    (fun u m c hm hc happart => by
      obtain ⟨hu, hallows, hpermitted⟩ := hc
      obtain ⟨⟨hfresh, hcollect, hlate, hpanic⟩, hpast⟩ := meets_cons.mp happart
      exact (hm hpast).step hu hallows hpermitted hfresh hcollect hlate hpanic)
    schedule (drivers_obey s dags) fun _ => Drivers.start hbooks
  exact ⟨hrun.1 hapart, hrun.2⟩

/-- A driver that has ended is between two calls. -/
theorem Drivers.resting_of_ended {s : InProcessScheduler} {m : SchedMachine} (h : Drivers w n s m)
    {t : Nat} (ht : t < n) {p : Sched TickReceipt} (hended : p.ended = true)
    (hobey : Obeys (driverProtocol n t) (fun _ ℓ => (view ℓ).Resting) TickFailed p
      (history (handle w) t m.log)) : (viewOf w t m.log).Resting := by
  cases p with
  | ret receipt => exact hobey
  | fail e =>
    cases e with
    | topology e => exact hobey
    | illegalTransition e => exact absurd hobey (h.accepted t ht)
  | call c k => exact Bool.noConfusion hended

/-- **Drivers that stay apart do not collide.** On a reachable scheduler, under every schedule of any
number of ticks on which each decision still stands when it is carried out, no Running job is collected twice,
PASS 3 takes no slot and nothing panics: no tick fails on a transition; every job that is started is
executed once, and its result applied once, before it is started again; and when all ticks have
returned, no start is outstanding and each counter is the number of Running jobs it stands for. -/
theorem drivers_do_not_collide (w : World) (tool : String) {b : BudgetTree} (hidle : b.Idle)
    {calls : List Call} (hcalls : ∀ call ∈ calls, call.ordinary = true) (dags : List Dag)
    (schedule : List Nat)
    (hapart : Apart w dags.length ((drivers (runCalls w (.installBudget b :: calls)
      (InProcessScheduler.new tool).start).state dags).run (handle w) schedule).machine.log) :
    let s := (runCalls w (.installBudget b :: calls) (InProcessScheduler.new tool).start).state
    let c := (drivers s dags).run (handle w) schedule
    (∀ p ∈ c.threads, illegal p = false) ∧
    (∀ id, (lifecycle s id c.machine.log).isSome = true) ∧
    ((∀ p ∈ c.threads, p.ended = true) →
      (∀ id, (∃ e ∈ c.machine.log, starts id e = true) → lifecycle s id c.machine.log = some .idle) ∧
      ∀ d, (c.machine.state.budget.cap d).isSome ∨
          c.machine.state.state.phases.size + dags.length < 4294967296 →
        (c.machine.state.budget.counter d).toNat = c.machine.state.countRunning d.covers) := by
  intro s c
  have hstart := (Sequential.start w (InProcessScheduler.new tool)).step
    (c := .installBudget b) ⟨rfl, rfl⟩
  obtain ⟨hm, hrest⟩ :=
    runCalls_withinBudget hcalls hstart ⟨rfl, rfl⟩ (WithinBudget.install hidle tool)
  have hbooks : Books (4294967296 - dags.length) s s.running := by
    have hheld := hm.held_of_resting hrest
    have hbooks := hm.books
    rw [hheld] at hbooks
    exact ⟨hbooks.holds.mono fun d hd => hd.imp_right fun hlt =>
      Nat.lt_of_lt_of_le hlt (Nat.sub_le _ _), hbooks.within⟩
  obtain ⟨h, hobey⟩ := drivers_run hbooks schedule hapart
  have hlength : c.threads.length = dags.length := by simp [c, drivers]
  refine ⟨fun p hp => ?_, fun id => ?_, fun hended => ?_⟩
  · obtain ⟨t, hp⟩ := List.getElem?_of_mem hp
    have ht : t < dags.length := hlength ▸ (List.getElem?_eq_some_iff.mp hp).1
    have hp' := hobey t p hp
    cases p with
    | fail e =>
      cases e with
      | topology e => rfl
      | illegalTransition e => exact absurd hp' (h.accepted t ht)
    | _ => rfl
  · rw [h.stages id]
    rfl
  · have hresting : ∀ t < dags.length, (viewOf w t c.machine.log).Resting := by
      intro t ht
      obtain ⟨p, hp⟩ : ∃ p, c.threads[t]? = some p := ⟨_, List.getElem?_eq_getElem (hlength ▸ ht)⟩
      exact h.resting_of_ended ht (hended p (List.mem_of_getElem? hp)) (hobey t p hp)
    refine ⟨fun id hstarted => ?_, fun d hd => ?_⟩
    · rw [h.stages id, stageOf_idle]
      intro hrunning
      obtain ⟨t, ht, hexpects⟩ := h.expects id hstarted hrunning
      exact View.not_expects_of_resting (hresting t ht) id hexpects
    · have howed : owedBy w dags.length c.machine.log = 0 :=
        Finset.sum_eq_zero fun t ht =>
          Focus.owed_of_idle (hresting t (Finset.mem_range.mp ht)).1
      have hholds := h.books.holds d (hd.imp_right fun hlt => Nat.lt_sub_of_add_lt hlt)
      rw [h.held, howed, Multiset.zero_add] at hholds
      rw [InProcessScheduler.countRunning_eq]
      exact hholds

namespace Sample

/-- Two jobs that end well. -/
def twoJobs : List Call := [.registerJob (job "a" .ok), .registerJob (job "b" .ok)]

/-- A scheduler with two jobs and slots for all. -/
def roomy : InProcessScheduler :=
  (runCalls world (.installBudget .new :: twoJobs) (InProcessScheduler.new "t").start).state

/-- Two ticks take turns on it. -/
def alternate (dag dag' : Dag) :
    Config schedInterface InProcessScheduler SchedulerError TickReceipt :=
  (drivers roomy [dag, dag']).run (handle world) (List.replicate 30 [0, 1]).flatten

end Sample

/-- Two ticks over the same job both find it Ready and take a slot for it, and the second to move it
fails. -/
theorem drivers_collide :
    (Sample.alternate (Sample.single "a") (Sample.single "a")).threads.map illegal = [false, true] := by
  decide +kernel

/-- Two ticks over different jobs. -/
theorem drivers_do_not_collide_alternate :
    let c := Sample.alternate (Sample.single "a") (Sample.single "b")
    (∃ e ∈ c.machine.log, starts (Sample.jobId "b") e = true) ∧
    lifecycle Sample.roomy (Sample.jobId "b") c.machine.log = some .idle ∧
    (c.machine.state.budget.counter .global).toNat = c.machine.state.countRunning (Dim.covers .global) := by
  have hcalls : ∀ call ∈ Sample.twoJobs, call.ordinary = true := by decide
  have hapart : Apart Sample.world [Sample.single "a", Sample.single "b"].length
      (Sample.alternate (Sample.single "a") (Sample.single "b")).machine.log := by decide +kernel
  have hstarted : ∃ e ∈ (Sample.alternate (Sample.single "a") (Sample.single "b")).machine.log,
      starts (Sample.jobId "b") e = true := by decide +kernel
  have hended : ∀ p ∈ (Sample.alternate (Sample.single "a") (Sample.single "b")).threads,
      p.ended = true := by decide +kernel
  have hsize : (Sample.alternate (Sample.single "a") (Sample.single "b")).machine.state.state.phases.size +
      [Sample.single "a", Sample.single "b"].length < 4294967296 := by decide +kernel
  have hfree : BudgetTree.new.Idle := fun d => by cases d <;> rfl
  have hrun := drivers_do_not_collide Sample.world "t" hfree hcalls
    [Sample.single "a", Sample.single "b"] (List.replicate 30 [0, 1]).flatten
  unfold Sample.alternate Sample.roomy at *
  obtain ⟨-, -, hreturned⟩ := hrun hapart
  obtain ⟨hidle, hcounters⟩ := hreturned hended
  exact ⟨hstarted, hidle _ hstarted, hcounters .global (.inr hsize)⟩

end Shigoto
