import Shigoto.Scheduler.Tick

/-!
# Restoring a snapshot

`restore_state` stores the phase of every job it carries, but an attempt count only if it is positive
and a history only if it is not empty. A zero or an empty history therefore does not clear what was
there: the overlay is an overwrite exactly when there is nothing to clear.
-/

namespace Shigoto

open Atomic

/-! ## What a restore leaves behind -/

/-- The job ids a snapshot carries. -/
def SchedulerSnapshot.ids (saved : SchedulerSnapshot) : List JobId := saved.jobs.map (·.id)

/-- The loop of `restore_state`. -/
def SchedulerState.restoreAll (state : SchedulerState) (jobs : List StoredJobState) :
    SchedulerState := jobs.foldl SchedulerState.restore state

section

variable {state : SchedulerState} {jobs : List StoredJobState} {job : StoredJobState} {id : JobId}

@[simp] theorem restoreAll_nil : state.restoreAll [] = state := rfl

@[simp] theorem restoreAll_cons :
    state.restoreAll (job :: jobs) = (state.restore job).restoreAll jobs := rfl

theorem attempts_restore (state : SchedulerState) (job : StoredJobState) (id : JobId) :
    (state.restore job).attempts.get? id =
      if id = job.id ∧ job.attempts > 0 then some job.attempts else state.attempts.get? id := by
  unfold SchedulerState.restore
  by_cases hpos : job.attempts > 0
  · simp [hpos, Map.get?_insert]
  · simp [hpos]

theorem failureHistory_restore (state : SchedulerState) (job : StoredJobState) (id : JobId) :
    (state.restore job).failureHistory.get? id =
      if id = job.id ∧ job.failureHistory ≠ [] then some job.failureHistory
      else state.failureHistory.get? id := by
  unfold SchedulerState.restore
  cases hhistory : job.failureHistory with
  | nil => simp
  | cons r rs => simp [Map.get?_insert]

theorem phases_restore (state : SchedulerState) (job : StoredJobState) (id : JobId) :
    (state.restore job).phases.get? id =
      if id = job.id then some job.phase else state.phases.get? id :=
  Map.get?_insert state.phases job.id id job.phase

/-- A job the snapshot does not carry is left alone. -/
theorem restoreAll_of_not_mem (state : SchedulerState) (h : id ∉ jobs.map (·.id)) :
    (state.restoreAll jobs).phases.get? id = state.phases.get? id ∧
    (state.restoreAll jobs).attempts.get? id = state.attempts.get? id ∧
    (state.restoreAll jobs).failureHistory.get? id = state.failureHistory.get? id := by
  induction jobs generalizing state with
  | nil => exact ⟨rfl, rfl, rfl⟩
  | cons job jobs ih =>
    simp only [List.map_cons, List.mem_cons, not_or] at h
    obtain ⟨hphase, hattempts, hhistory⟩ := ih (state.restore job) h.2
    rw [restoreAll_cons, hphase, hattempts, hhistory, phases_restore, attempts_restore,
      failureHistory_restore]
    simp [h.1]

/-- What a job carried by the snapshot ends up with. -/
theorem restoreAll_of_mem (state : SchedulerState) (hnodup : (jobs.map (·.id)).Nodup) (hjob : job ∈ jobs) :
    (state.restoreAll jobs).phases.get? job.id = some job.phase ∧
    (state.restoreAll jobs).attempts.get? job.id =
      (if job.attempts > 0 then some job.attempts else state.attempts.get? job.id) ∧
    (state.restoreAll jobs).failureHistory.get? job.id =
      (if job.failureHistory ≠ [] then some job.failureHistory
        else state.failureHistory.get? job.id) := by
  induction jobs generalizing state with
  | nil => simp at hjob
  | cons first jobs ih =>
    obtain ⟨hfirst, hnodup⟩ := List.nodup_cons.mp hnodup
    rw [restoreAll_cons]
    rcases List.mem_cons.mp hjob with rfl | hjob
    · obtain ⟨hphase, hattempts, hhistory⟩ :=
        restoreAll_of_not_mem (state.restore job) hfirst
      rw [hphase, hattempts, hhistory, phases_restore, attempts_restore, failureHistory_restore]
      simp
    · have hne : job.id ≠ first.id := fun h => hfirst (List.mem_map.mpr ⟨job, hjob, h⟩)
      obtain ⟨hphase, hattempts, hhistory⟩ := ih (state.restore first) hnodup hjob
      rw [hphase, hattempts, hhistory, attempts_restore, failureHistory_restore]
      simp [hne]

/-- A stored phase was restored or was there before. -/
theorem phases_restoreAll_cases {p : JobPhase} (h : (state.restoreAll jobs).phases.get? id = some p) :
    (∃ job ∈ jobs, job.id = id ∧ job.phase = p) ∨ state.phases.get? id = some p := by
  induction jobs generalizing state with
  | nil => exact .inr h
  | cons job jobs ih =>
    rcases ih h with ⟨job', hjob', hrest⟩ | hbefore
    · exact .inl ⟨job', List.mem_cons_of_mem _ hjob', hrest⟩
    · rw [phases_restore] at hbefore
      split at hbefore
      · next hid => exact .inl ⟨job, List.mem_cons_self, hid.symm, Option.some.inj hbefore⟩
      · exact .inr hbefore

/-- A stored count was restored or was there before. -/
theorem attempts_restoreAll_cases {a : UInt32}
    (h : (state.restoreAll jobs).attempts.get? id = some a) :
    (∃ job ∈ jobs, job.id = id ∧ job.attempts = a ∧ a ≠ 0) ∨ state.attempts.get? id = some a := by
  induction jobs generalizing state with
  | nil => exact .inr h
  | cons job jobs ih =>
    rcases ih h with ⟨job', hjob', hrest⟩ | hbefore
    · exact .inl ⟨job', List.mem_cons_of_mem _ hjob', hrest⟩
    · rw [attempts_restore] at hbefore
      split at hbefore
      · next hid =>
        obtain rfl := Option.some.inj hbefore
        exact .inl ⟨job, List.mem_cons_self, hid.1.symm, rfl, UInt32.pos_iff_ne_zero.mp hid.2⟩
      · exact .inr hbefore

/-- A stored history was restored or was there before. -/
theorem failureHistory_restoreAll_cases {history : List FailureRecord}
    (h : (state.restoreAll jobs).failureHistory.get? id = some history) :
    (∃ job ∈ jobs, job.id = id ∧ job.failureHistory = history ∧ history ≠ []) ∨
      state.failureHistory.get? id = some history := by
  induction jobs generalizing state with
  | nil => exact .inr h
  | cons job jobs ih =>
    rcases ih h with ⟨job', hjob', hrest⟩ | hbefore
    · exact .inl ⟨job', List.mem_cons_of_mem _ hjob', hrest⟩
    · rw [failureHistory_restore] at hbefore
      split at hbefore
      · next hid =>
        obtain rfl := Option.some.inj hbefore
        exact .inl ⟨job, List.mem_cons_self, hid.1.symm, rfl, hid.2⟩
      · exact .inr hbefore

theorem known_restoreAll (h : (state.phases.get? id).isSome = true ∨ id ∈ jobs.map (·.id)) :
    ((state.restoreAll jobs).phases.get? id).isSome = true := by
  induction jobs generalizing state with
  | nil => simpa using h
  | cons job jobs ih =>
    apply ih
    rcases h with h | h
    · exact .inl (Map.isSome_get?_insert h job.id job.phase)
    · rcases List.mem_cons.mp h with rfl | h
      · left
        simp [phases_restore]
      · exact .inr h

end

/-! ## When the overlay is an overwrite -/

/-- `some a` unless `a` is the value that stands for absence. -/
def present {α : Type} [DecidableEq α] (absent a : α) : Option α := if a = absent then none else some a

/-- The overlay of `saved` on `s` led to `s'` by overwriting exactly the entries it carries. The
last part is what the next retry decision reads. -/
structure Overwritten (w : World) (saved : SchedulerSnapshot) (s s' : InProcessScheduler) : Prop where
  phases : ∀ job ∈ saved.jobs, s'.state.phases.get? job.id = some job.phase
  attempts : ∀ job ∈ saved.jobs, s'.state.attempts.get? job.id = present 0 job.attempts
  failureHistory : ∀ job ∈ saved.jobs,
    s'.state.failureHistory.get? job.id = present [] job.failureHistory
  others : ∀ id ∉ saved.ids, s'.state.phases.get? id = s.state.phases.get? id ∧
    s'.state.attempts.get? id = s.state.attempts.get? id ∧
    s'.state.failureHistory.get? id = s.state.failureHistory.get? id
  retry : ∀ job ∈ saved.jobs, (handle w (.readRetry job.id) s').1.2 =
    (if job.attempts = 0 then 1 else job.attempts, job.failureHistory)

/-- `restore_state` on a scheduler. -/
def restored (w : World) (saved : SchedulerSnapshot) (s : InProcessScheduler) :
    InProcessScheduler :=
  (runCalls w [.restoreState saved] s.start).state

/-- **The overlay is an overwrite exactly when nothing would have to be cleared**: every job that the
snapshot carries with no attempts has no attempts yet, and every one with no history has none. -/
theorem restoreState_overwrites_iff (w : World) (s : InProcessScheduler)
    {saved : SchedulerSnapshot} (hnodup : saved.ids.Nodup) :
    Overwritten w saved s (restored w saved s) ↔
      ∀ job ∈ saved.jobs, (job.attempts = 0 → s.state.attempts.get? job.id = none) ∧
        (job.failureHistory = [] → s.state.failureHistory.get? job.id = none) := by
  have hmem : ∀ job ∈ saved.jobs, _ := fun job hjob =>
    restoreAll_of_mem s.state hnodup hjob
  constructor
  · intro h job hjob
    obtain ⟨-, hattempts, hhistory⟩ := hmem job hjob
    refine ⟨fun hzero => ?_, fun hempty => ?_⟩
    · have hafter := h.attempts job hjob
      rw [hzero] at hafter hattempts
      exact hattempts.symm.trans hafter
    · have hafter := h.failureHistory job hjob
      rw [hempty] at hafter hhistory
      exact hhistory.symm.trans hafter
  · intro h
    have hattempts : ∀ job ∈ saved.jobs,
        (s.state.restoreAll saved.jobs).attempts.get? job.id = present 0 job.attempts := by
      intro job hjob
      rw [(hmem job hjob).2.1, present]
      by_cases hzero : job.attempts = 0
      · simp [hzero, (h job hjob).1 hzero]
      · simp [hzero, UInt32.pos_iff_ne_zero.mpr hzero]
    have hhistory : ∀ job ∈ saved.jobs,
        (s.state.restoreAll saved.jobs).failureHistory.get? job.id =
          present [] job.failureHistory := by
      intro job hjob
      rw [(hmem job hjob).2.2, present]
      by_cases hempty : job.failureHistory = []
      · simp [hempty, (h job hjob).2 hempty]
      · simp [hempty]
    refine ⟨fun job hjob => (hmem job hjob).1, hattempts, hhistory,
      fun id hid => restoreAll_of_not_mem s.state hid, fun job hjob => ?_⟩
    show (((s.state.restoreAll saved.jobs).attempts.get? job.id).getD 1,
      ((s.state.restoreAll saved.jobs).failureHistory.get? job.id).getD []) = _
    rw [hattempts job hjob, hhistory job hjob, present, present]
    congr 1
    · split <;> rfl
    · split <;> simp_all

namespace Sample

/-- A scheduler whose job `a` is registered, with three attempts, and has not run. -/
def beforeFailure : InProcessScheduler :=
  (runCalls world [.registerRetryPolicy ⟨"build"⟩ (.fixed 3 1000), .registerJob (job "a" .err)]
    (InProcessScheduler.new "t").start).state

/-- The same after one failed execution. -/
def afterFailure : InProcessScheduler :=
  (runCalls world [.tick (Dag.new.ensureNode (jobId "a"))] beforeFailure.start).state

/-- The snapshot taken before. -/
def savedBefore : SchedulerSnapshot :=
  project (fun _ => 0) beforeFailure.state.phases beforeFailure.state.attempts
    beforeFailure.state.failureHistory

end Sample

/-- Overlaying the snapshot taken before a failure leaves the attempt count of the failure. -/
theorem restoreState_keeps_attempts :
    Sample.savedBefore.ids.Nodup ∧
    (restored Sample.world Sample.savedBefore Sample.afterFailure).state.attempts.get?
      (Sample.jobId "a") = some 1 ∧
    ¬ Overwritten Sample.world Sample.savedBefore Sample.afterFailure
      (restored Sample.world Sample.savedBefore Sample.afterFailure) := by
  have hstale : (restored Sample.world Sample.savedBefore Sample.afterFailure).state.attempts.get?
      (Sample.jobId "a") = some 1 := by decide +kernel
  have hsaved : (⟨Sample.jobId "a", .pending, 0, []⟩ : StoredJobState) ∈ Sample.savedBefore.jobs := by
    decide +kernel
  refine ⟨by decide +kernel, hstale, fun h => ?_⟩
  have hcleared := h.attempts _ hsaved
  rw [hstale] at hcleared
  simp [present] at hcleared

namespace Sample

/-- Job `a`, which fails and is retried at once, beside job `b`, which succeeds; after the given number of
ticks. -/
def tickedTimes (n : Nat) : InProcessScheduler :=
  (runCalls world ([.registerRetryPolicy ⟨"build"⟩ (.fixed 3 0), .registerJob (job "a" .err),
    .registerJob (job "b" .ok)] ++ List.replicate n (.tick pair)) (InProcessScheduler.new "t").start).state

/-- The snapshot taken after the first tick: `a` with one attempt, `b` with none. -/
def savedFirst : SchedulerSnapshot :=
  project (fun _ => 0) (tickedTimes 1).state.phases (tickedTimes 1).state.attempts
    (tickedTimes 1).state.failureHistory

end Sample

/-- A snapshot overlaid on the scheduler a tick later, at which the failing job has one attempt more. -/
theorem restoreState_overwrites_later :
    Overwritten Sample.world Sample.savedFirst (Sample.tickedTimes 2)
      (restored Sample.world Sample.savedFirst (Sample.tickedTimes 2)) ∧
    (Sample.tickedTimes 2).state.attempts.get? (Sample.jobId "a") = some 2 ∧
    (restored Sample.world Sample.savedFirst (Sample.tickedTimes 2)).state.attempts.get?
      (Sample.jobId "a") = some 1 := by
  have hnothing : ∀ job ∈ Sample.savedFirst.jobs,
      (job.attempts = 0 → (Sample.tickedTimes 2).state.attempts.get? job.id = none) ∧
        (job.failureHistory = [] → (Sample.tickedTimes 2).state.failureHistory.get? job.id = none) := by
    decide +kernel
  exact ⟨(restoreState_overwrites_iff Sample.world (Sample.tickedTimes 2) (by decide +kernel)).mpr hnothing,
    by decide +kernel, by decide +kernel⟩

end Shigoto
