import Shigoto.Scheduler.Sequential

/-!
# Slots and Running jobs

The slot of a job is taken before the job becomes Running and given back after it has left Running.
In between, the caller owes the difference (`Focus.owed`). With what is owed added, the counters of
the budget count the Running jobs at every moment (`Books`).

`executing` reads off a log which executions are under way.
-/

namespace Shigoto

open Atomic BudgetTree

variable {w : World}

/-! ## What a caller owes -/

/-- Slots taken for a job that is not Running: not yet, or not any more. -/
def Focus.owed : Focus → Multiset JobId
  | .granted id | .succeeded id _ | .releasing id _ => {id}
  | _ => 0

theorem Focus.owed_of_idle {focus : Focus} (h : focus.idle = true) : focus.owed = 0 := by
  cases focus with
  | granted id => simp [idle] at h
  | succeeded id results => simp [idle] at h
  | releasing id results => simp [idle] at h
  | _ => rfl

/-- An accepted signal moves a slot between the caller and the Running jobs, or leaves both alone:
the slots held altogether are the same. -/
theorem owed_add_running_dispatched {pass : Pass} {focus : Focus} {s s' : InProcessScheduler}
    {id : JobId} {signal : Signal} {target : JobPhase} (hdue : Due pass id focus signal)
    (hadvance : advance (s.phase id) signal = .ok target)
    (hphase : ∀ id', s'.phase id' = if id' = id then target else s.phase id') :
    focus.dispatched.owed + s'.running = focus.owed + s.running := by
  have hself : s'.phase id = target := by rw [hphase, if_pos rfl]
  have hother : ∀ id', id' ≠ id → s'.phase id' = s.phase id' := fun id' h => by
    rw [hphase, if_neg h]
  -- a signal between two phases other than Running
  have hcongr : s.phase id ≠ .running → target ≠ .running → s'.running = s.running := by
    intro hsource htarget
    refine InProcessScheduler.running_congr fun id' => ?_
    by_cases h : id' = id
    · simp [h, hself, hsource, htarget]
    · rw [hother id' h]
  -- a signal that ends an execution
  have herase : s.phase id = .running → target ≠ .running → {id} + s'.running = s.running := by
    intro hsource htarget
    have hrunning : s'.running = s.running.erase id := by
      refine InProcessScheduler.running_erase fun id' => ?_
      by_cases h : id' = id
      · simp [h, hself, htarget]
      · simp [h, hother id' h]
    rw [hrunning, Multiset.singleton_add]
    exact Multiset.cons_erase (InProcessScheduler.mem_running.mpr hsource)
  cases hdue with
  | gates phase ctx outcomes news =>
    obtain ⟨hsource, rfl⟩ := advance_evaluateGates_iff.mp hadvance
    refine congrArg (0 + ·) (hcongr (fun h => ?_) ?_)
    · simp [h, JobPhase.evaluable] at hsource
    · cases cohortAggregate ctx outcomes <;> simp [GateAggregate.phase]
  | backoff untilMs nowMs elapsed =>
    obtain ⟨⟨until', hsource⟩, rfl⟩ := advance_backoffElapsed_iff.mp hadvance
    exact congrArg (0 + ·) (hcongr (by simp [hsource]) (by simp))
  | retry outcome =>
    obtain ⟨⟨n, hsource⟩, rfl⟩ := advance_retryDecide_iff.mp hadvance
    refine congrArg (0 + ·) (hcongr (by simp [hsource]) ?_)
    cases outcome <;> simp [RetryOutcome.phase]
  | slot seeded =>
    obtain ⟨hsource, rfl⟩ := advance_allocateBudget_iff.mp hadvance
    have hrunning : s'.running = id ::ₘ s.running := by
      refine InProcessScheduler.running_cons (by simp [hsource]) fun id' => ?_
      by_cases h : id' = id
      · simp [h, hself]
      · simp [h, hother id' h]
    rw [hrunning]
    exact Multiset.zero_add _
  | success results =>
    obtain ⟨hsource, rfl⟩ := advance_executionSucceeded_iff.mp hadvance
    exact (herase hsource (by simp)).trans (Multiset.zero_add _).symm
  | failure results =>
    obtain ⟨hsource, rfl⟩ := advance_executionFailed_iff.mp hadvance
    exact (herase hsource (by simp)).trans (Multiset.zero_add _).symm

/-! ## The slots held -/

/-- What a command makes of the slots held. -/
def slotsAfter (s : InProcessScheduler) (held : Multiset JobId) : Cmd → Multiset JobId
  | .tryAllocate id =>
    match (s.budget.tryAllocate id).1 with
    | .ok _ => id ::ₘ held
    | .error _ => held
  | .release id => held.erase id
  | .installBudget _ => 0
  | _ => held

/-- The slots held at the end of a log that began with `held`. -/
def heldSlots (held : Multiset JobId) : List SchedEvent → Multiset JobId
  | [] => held
  | e :: past => slotsAfter e.pre (heldSlots held past) e.cmd

/-- Every slot released in the log was held. -/
def releasesHeld (held : Multiset JobId) : List SchedEvent → Bool
  | [] => true
  | e :: past =>
    match e.cmd with
    | .release id => decide (id ∈ heldSlots held past) && releasesHeld held past
    | _ => releasesHeld held past

theorem releasesHeld_cons {held : Multiset JobId} {e : SchedEvent} {past : List SchedEvent}
    (h : releasesHeld held past = true) (he : ∀ id, e.cmd = .release id → id ∈ heldSlots held past) :
    releasesHeld held (e :: past) = true := by
  unfold releasesHeld
  split
  · next id hid => simp [h, he id hid]
  · exact h

/-- Neither replaces the budget nor restores a snapshot. -/
def Cmd.ordinary : Cmd → Bool
  | .installBudget _ | .restoreState _ => false
  | _ => true

theorem Cmd.ne_restoreState {c : Cmd} (hc : c.ordinary = true) (saved : SchedulerSnapshot) :
    c ≠ .restoreState saved := by
  rintro rfl
  exact Bool.noConfusion hc

/-- A write that moves a job that does not run to a phase in which it does not run either. -/
theorem running_overwritten {s : InProcessScheduler} {id : JobId} {phase : JobPhase}
    (hsource : s.phase id ≠ .running) (htarget : phase ≠ .running) :
    (handle w (.overwrite id phase) s).2.running = s.running := by
  refine InProcessScheduler.running_congr fun id' => ?_
  have hphase : (handle w (.overwrite id phase) s).2.phase id' =
      if id' = id then phase else s.phase id' := phaseIn_insert s.state.phases id id' phase
  rw [hphase]
  by_cases hid : id' = id
  · subst hid
    simp only [if_pos, htarget, false_iff]
    exact hsource
  · rw [if_neg hid]

/-! ### What a caller owes

Most commands neither take nor return a slot, and then a caller owes what it owed. -/

/-- The questions a caller asks before it decides on a signal. -/
def Cmd.queries : Cmd → Bool
  | .now | .readGates _ | .consult _ _ | .readRetry _ | .decide _ _ _ => true
  | _ => false

/-- The commands that execute jobs, and those that count how they ended. -/
def Cmd.executes : Cmd → Bool
  | .lookupJob _ | .spawn _ _ _ | .join _ | .recordFailure _ | .clearFailures _ => true
  | _ => false

/-- The commands that take or return a slot, or move a job. -/
def Cmd.slotted : Cmd → Bool
  | .dispatch _ _ | .tryAllocate _ | .release _ | .overwrite _ _ => true
  | _ => false

theorem View.owed_next_queries {v : View} {c : Cmd} (hallows : v.Allows c) (hc : c.queries = true) (r : c.Resp) :
    (v.next c r).focus.owed = v.focus.owed := by
  obtain ⟨pass, focus⟩ := v
  cases c with
  | now =>
    cases focus with
    | looked id phase => cases phase <;> rfl
    | _ => rfl
  | readGates id => rcases hallows with hlooked | hlooked <;> cases hlooked <;> rfl
  | consult gate ctx =>
    obtain ⟨id, phase, ahead, outcomes, rfl⟩ := hallows
    rfl
  | readRetry id =>
    obtain ⟨n, rfl⟩ : ∃ n, focus = .looked id (.failed n) := hallows
    rfl
  | decide policy attempt history =>
    obtain ⟨id, rfl⟩ : ∃ id, focus = .judging id policy attempt history := hallows
    cases r <;> rfl
  | _ => cases hc

theorem View.owed_next_executes {v : View} {c : Cmd} (hallows : v.Allows c) (hc : c.executes = true)
    (r : c.Resp) : (v.next c r).focus.owed = v.focus.owed := by
  obtain ⟨pass, focus⟩ := v
  cases c with
  | lookupJob id =>
    obtain ⟨ids, tasks, rfl⟩ : ∃ ids tasks, focus = .collecting (id :: ids) tasks := hallows
    rfl
  | spawn id job timeout =>
    obtain ⟨ids, tasks, rfl⟩ : ∃ ids tasks, focus = .fetched id job timeout ids tasks := hallows
    rfl
  | join tasks =>
    obtain rfl : focus = .collecting [] tasks := hallows
    rfl
  | recordFailure id =>
    obtain ⟨results, rfl⟩ : ∃ results, focus = .applying ((id, .error ()) :: results) := hallows
    rfl
  | clearFailures id =>
    obtain ⟨results, rfl⟩ : ∃ results, focus = .succeeded id results := hallows
    rfl
  | _ => cases hc

/-- What does neither is issued between two steps, where nothing is owed, or emits an operator's event. -/
theorem View.owed_next {v : View} {c : Cmd} (hallows : v.Allows c) (hc : c.slotted = false) (r : c.Resp) :
    (v.next c r).focus.owed = v.focus.owed := by
  have hidle : v.focus.idle = true → (v.next c r).focus.owed = 0 →
      (v.next c r).focus.owed = v.focus.owed := fun hidle howed =>
    howed.trans (Focus.owed_of_idle hidle).symm
  cases c with
  | dispatch _ _ | tryAllocate _ | release _ | overwrite _ _ => cases hc
  | now | readGates _ | consult _ _ | readRetry _ | decide _ _ _ => exact owed_next_queries hallows rfl r
  | lookupJob _ | spawn _ _ _ | join _ | recordFailure _ | clearFailures _ =>
    exact owed_next_executes hallows rfl r
  | runningOf wave => exact hidle hallows.1 (by cases r <;> rfl)
  | emit time id source target reason =>
    obtain ⟨pass, focus⟩ := v
    obtain rfl : focus = .moved id source target := hallows
    rfl
  | seed id => exact hidle hallows rfl
  | phaseOf id => exact hidle hallows rfl
  | _ => exact hidle hallows.1 rfl

/-- **Slots follow the Running jobs**: what the caller owes and the Running jobs are, together with
the slots of `others`, what the budget makes of the slots held. -/
theorem held_next {v : View} {s : InProcessScheduler} {c : Cmd} (hallows : v.Allows c)
    (hlands : c.Lands s) (hc : c.ordinary = true) (others : Multiset JobId) :
    (v.next c (handle w c s).1).focus.owed + (handle w c s).2.running + others =
      slotsAfter s (v.focus.owed + s.running + others) c := by
  have hquiet : c.slotted = false → c.moves = false →
      (v.next c (handle w c s).1).focus.owed + (handle w c s).2.running + others =
        v.focus.owed + s.running + others := by
    intro hslotted hmoves
    have hrunning : (handle w c s).2.running = s.running :=
      InProcessScheduler.running_congr fun id => by rw [phase_of_not_moves w hmoves]
    rw [View.owed_next hallows hslotted, hrunning]
  cases c with
  | dispatch id signal =>
    obtain ⟨target, hadvance⟩ := hlands
    have hanswer := answer_dispatch_ok w hadvance
    rw [hanswer]
    exact congrArg (· + others)
      (owed_add_running_dispatched hallows hadvance (phase_dispatch_ok w hadvance))
  | tryAllocate id =>
    obtain ⟨hlooked, -⟩ := hallows
    have hrunning : (handle w (.tryAllocate id) s).2.running = s.running := rfl
    have hanswer : (handle w (.tryAllocate id) s).1 = (s.budget.tryAllocate id).1 := rfl
    rw [hrunning, hanswer, slotsAfter, hlooked]
    cases (s.budget.tryAllocate id).1 with
    | error e => rfl
    | ok u =>
      show {id} + s.running + others = id ::ₘ (0 + s.running + others)
      rw [Multiset.zero_add, Multiset.singleton_add, Multiset.cons_add]
  | release id =>
    obtain ⟨pass, focus⟩ := v
    obtain ⟨results, rfl⟩ : ∃ results, focus = .releasing id results := hallows
    show 0 + s.running + others = ({id} + s.running + others).erase id
    rw [Multiset.zero_add, Multiset.singleton_add, Multiset.cons_add, Multiset.erase_cons_head]
  | overwrite id phase =>
    obtain ⟨pass, focus⟩ := v
    obtain ⟨source, rfl, hadvance⟩ := hallows
    have htarget : phase ≠ .running := by
      obtain ⟨-, ⟨-, rfl | ⟨reason, rfl⟩⟩ | ⟨-, rfl⟩⟩ :=
        advance_operatorTransition hadvance <;> simp
    exact congrArg (0 + · + others) (running_overwritten hlands htarget)
  | installBudget budget => cases hc
  | restoreState saved => cases hc
  | _ => exact hquiet rfl rfl

/-! ## The books -/

/-- The counters count the slots held, and no cap is exceeded. An uncapped counter is right only as
long as it cannot overflow; `limit` bounds the number of jobs that is safe. -/
structure Books (limit : Nat) (s : InProcessScheduler) (held : Multiset JobId) : Prop where
  holds : s.budget.Holds (fun d => (s.budget.cap d).isSome ∨ s.state.phases.size < limit) held
  within : s.budget.Within held

/-- **The books are kept** by every command, as long as only held slots are released and there is
room for one more. -/
theorem Books.next {limit : Nat} {s : InProcessScheduler} {held : Multiset JobId}
    (h : Books limit s held) {c : Cmd} (hc : c.ordinary = true)
    (hroom : ∀ id, c = .tryAllocate id → s.state.phases.size < limit →
      Multiset.card held + 1 < 4294967296)
    (hrelease : ∀ id, c = .release id → id ∈ held) :
    Books limit (handle w c s).2 (slotsAfter s held c) := by
  have hsize := size_phases_le w c s
  -- a command that leaves the budget alone
  have hquiet : (handle w c s).2.budget = s.budget → Books limit (handle w c s).2 held := by
    intro hbudget
    refine ⟨?_, ?_⟩
    · rw [hbudget]
      exact h.holds.mono fun d hd => hd.imp_right fun hlt => hsize.trans_lt hlt
    · rw [hbudget]
      exact h.within
  cases c with
  | tryAllocate id =>
    rw [slotsAfter]
    cases hanswer : (s.budget.tryAllocate id).1 with
    | error e => exact hquiet (tryAllocate_error hanswer)
    | ok u =>
      refine ⟨?_, Within.allocate h.within h.holds (fun d => .inl) hanswer⟩
      refine (Holds.allocate h.holds hanswer fun d hd => ?_).mono fun d hd => ?_
      · exact hd.imp_right fun hlt => hroom id rfl hlt
      · have hcap : (handle w (.tryAllocate id) s).2.budget.cap = s.budget.cap :=
          cap_tryAllocate s.budget id
        rwa [hcap] at hd
  | release id =>
    have hmem := hrelease id rfl
    exact ⟨Holds.release h.holds hmem, h.within.mono (cap_release s.budget id) (Multiset.erase_le id _)⟩
  | installBudget budget => simp [Cmd.ordinary] at hc
  | restoreState saved => simp [Cmd.ordinary] at hc
  | _ => exact hquiet (budget_handle w _ s)

/-! ## Executions under way -/

/-- The jobs executing at the end of a log: spawned since tasks were last awaited. -/
def executing : List SchedEvent → List JobId
  | [] => []
  | e :: past =>
    match e.cmd with
    | .spawn id _ _ => id :: executing past
    | .join _ => []
    | _ => executing past

theorem Focus.spawned_sublist_flight (focus : Focus) :
    (focus.spawned.map (·.id)).Sublist focus.flight := by
  rw [flight_eq, executed]
  exact (List.sublist_append_left _ _).trans (List.sublist_append_right _ _)

/-- A signal that is due finds nothing spawned and leaves nothing spawned. -/
theorem Due.spawned {pass : Pass} {focus : Focus} {id : JobId} {signal : Signal}
    (hdue : Due pass id focus signal) : focus.spawned = [] ∧ focus.dispatched.spawned = [] := by
  cases hdue <;> exact ⟨rfl, rfl⟩

/-- The log and the caller agree on what is executing. -/
def Accounted (w : World) (log : List SchedEvent) : Prop :=
  (executing log).Perm ((viewOf w 0 log).focus.spawned.map (·.id))

theorem Accounted.step {m : SchedMachine} (h : Accounted w m.log) {c : Cmd}
    (hallows : (viewOf w 0 m.log).Allows c) : Accounted w (m.step (handle w) 0 c).log := by
  rw [Accounted, viewOf_step_self]
  cases hworks : c.works with
  | false =>
    have hexecuting : executing (m.step (handle w) 0 c).log = executing m.log := by
      cases c with
      | spawn id job timeout => simp [Cmd.works] at hworks
      | join tasks => simp [Cmd.works] at hworks
      | _ => rfl
    rw [hexecuting, (View.sameWork_next hallows hworks).2.1]
    exact h
  | true =>
    cases c with
    | runningOf wave =>
      rw [Accounted, (Focus.sameWork_rest hallows.1).2.1] at h
      show (executing m.log).Perm _
      cases (handle w (.runningOf wave) m.state).1 <;> exact h
    | spawn id job timeout =>
      obtain ⟨-, hspawned, -⟩ := View.work_spawn hallows (handle w (.spawn id job timeout) m.state).1
      have hid : (handle w (.spawn id job timeout) m.state).1.id = id := by cases job <;> rfl
      rw [hspawned, List.map_append, List.map_singleton, hid]
      exact (h.cons id).trans (List.perm_append_singleton id _).symm
    | join tasks => exact .refl _
    | dispatch id signal =>
      obtain ⟨hbefore, hafter⟩ := Due.spawned hallows
      rw [Accounted, hbefore] at h
      show (executing m.log).Perm _
      cases (handle w (.dispatch id signal) m.state).1 with
      | ok event => exact hafter.symm ▸ h
      | error e => exact h
    | release id =>
      rw [(View.work_release hallows _).2.1]
      exact h
    | _ => simp [Cmd.works] at hworks

/-- What is executing is Running, each job once. -/
theorem executing_le_running {m : SchedMachine} (hs : Sequential w m) (h : Accounted w m.log) :
    (executing m.log : Multiset JobId) ≤ m.state.running := by
  have hsub := (viewOf w 0 m.log).focus.spawned_sublist_flight
  have hnodup : (executing m.log).Nodup := h.nodup_iff.mpr (hsub.nodup hs.nodup)
  refine (Multiset.le_iff_subset (Multiset.coe_nodup.mpr hnodup)).mpr fun id hid => ?_
  exact InProcessScheduler.mem_running.mpr (hs.running id (hsub.subset (h.mem_iff.mp hid)))

end Shigoto
