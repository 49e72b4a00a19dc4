import Shigoto.Scheduler.Restore
import Shigoto.Scheduler.Sequential

/-!
# Restarts lose nothing

A snapshot writes an absent attempt count as zero and an absent history as empty, and a restore skips
both. The round trip is exact because a reachable scheduler stores neither (`Clean`): attempt counts
and histories belong to known jobs, no stored count is zero and no stored history is empty. A stored
count is bounded by the failures of the run, so it does not wrap around to zero.
-/

namespace Shigoto

open Atomic

variable {w : World}

/-! ## The states a run reaches -/

/-- Counts and histories belong to known jobs and are never the value that stands for absence. -/
structure SchedulerState.Clean (state : SchedulerState) : Prop where
  attempts : ∀ id a, state.attempts.get? id = some a →
    (state.phases.get? id).isSome = true ∧ a ≠ 0
  failureHistory : ∀ id history, state.failureHistory.get? id = some history →
    (state.phases.get? id).isSome = true ∧ history ≠ []

/-- The snapshot that event `e` took. -/
def takenBy (w : World) (e : SchedEvent) : SchedulerSnapshot := (handle w .snapshotState e.pre).1

/-- A restore uses a snapshot taken earlier in the same run. -/
def RestoresEarlier (w : World) (e : SchedEvent) (past : List SchedEvent) : Prop :=
  ∀ saved, e.cmd = .restoreState saved →
    ∃ e' ∈ past, e'.cmd = .snapshotState ∧ saved = takenBy w e'

/-- A job carried by a projection carries what the maps hold, with defaults for what they do not. -/
theorem mem_project {rank : JobId → Nat} {phases : Map JobId JobPhase}
    {attempts : Map JobId UInt32} {failureHistory : Map JobId (List FailureRecord)}
    {job : StoredJobState} :
    job ∈ (project rank phases attempts failureHistory).jobs ↔
      phases.get? job.id = some job.phase ∧ job.attempts = (attempts.get? job.id).getD 0 ∧
      job.failureHistory = (failureHistory.get? job.id).getD [] := by
  simp only [project, List.mem_map]
  constructor
  · rintro ⟨⟨id, phase⟩, hmem, rfl⟩
    exact ⟨(Map.mem_iterate rank phases id phase).mp hmem, rfl, rfl⟩
  · rintro ⟨hphase, hattempts, hhistory⟩
    refine ⟨(job.id, job.phase), (Map.mem_iterate rank phases _ _).mpr hphase, ?_⟩
    rw [← hattempts, ← hhistory]

theorem project_ids_nodup (rank : JobId → Nat) (phases : Map JobId JobPhase)
    (attempts : Map JobId UInt32) (failureHistory : Map JobId (List FailureRecord)) :
    (project rank phases attempts failureHistory).ids.Nodup := by
  have hids : (project rank phases attempts failureHistory).ids =
      (phases.iterate rank).map (·.1) := by
    simp [SchedulerSnapshot.ids, project, Function.comp_def]
  rw [hids]
  exact Map.iterate_keys_nodup rank phases

/-- What a run keeps, as long as no job fails 2^32 times and only earlier snapshots are restored. -/
structure Honest (w : World) (m : SchedMachine) : Prop where
  clean : m.state.state.Clean
  bounded : ∀ id a, m.state.state.attempts.get? id = some a →
    a.toNat ≤ failedExecutions id m.log
  /-- No snapshot taken so far counts more failures than there were. -/
  taken : ∀ e ∈ m.log, e.cmd = .snapshotState →
    ∀ job ∈ (takenBy w e).jobs, job.attempts.toNat ≤ failedExecutions job.id m.log

theorem capHistory_ne_nil {history : List FailureRecord} (h : history ≠ []) :
    capHistory history ≠ [] := by
  unfold capHistory
  split
  · next hlong =>
    rw [Ne, List.drop_eq_nil_iff]
    omega
  · exact h

/-- A failure of a known job keeps a state clean, as long as its counter does not wrap around. -/
theorem SchedulerState.Clean.recordFailure {state : SchedulerState} (h : state.Clean) {id : JobId}
    (hknown : (state.phases.get? id).isSome = true) (hcount : (state.attempts.get? id).getD 0 + 1 ≠ 0)
    (nowMs : DateTime) : (state.recordFailure id nowMs).Clean := by
  refine ⟨fun id' a ha => ?_, fun id' history hhistory => ?_⟩
  · rw [SchedulerState.recordFailure, Map.get?_insert] at ha
    split at ha
    · next hid =>
      subst hid
      obtain rfl := Option.some.inj ha
      exact ⟨hknown, hcount⟩
    · exact h.attempts id' a ha
  · rw [SchedulerState.recordFailure, Map.get?_insert] at hhistory
    split at hhistory
    · next hid =>
      subst hid
      obtain rfl := Option.some.inj hhistory
      exact ⟨hknown, capHistory_ne_nil (by simp)⟩
    · exact h.failureHistory id' history hhistory

/-- A counter below its bound counts one more. -/
theorem toNat_count_succ {state : SchedulerState} {id : JobId} {bound : Nat}
    (hbound : ∀ a, state.attempts.get? id = some a → a.toNat ≤ bound) (hsmall : bound + 1 < 4294967296) :
    ((state.attempts.get? id).getD 0 + 1).toNat = ((state.attempts.get? id).getD 0).toNat + 1 ∧
      ((state.attempts.get? id).getD 0).toNat ≤ bound := by
  have hle : ((state.attempts.get? id).getD 0).toNat ≤ bound := by
    cases hget : state.attempts.get? id with
    | none => exact Nat.zero_le _
    | some a => exact hbound a hget
  refine ⟨?_, hle⟩
  rw [UInt32.toNat_add]
  exact Nat.mod_eq_of_lt (by simp only [UInt32.toNat_one]; omega)

/-- Restoring any snapshot keeps a state clean. -/
theorem SchedulerState.Clean.restoreAll {state : SchedulerState} (h : state.Clean)
    (jobs : List StoredJobState) : (state.restoreAll jobs).Clean := by
  refine ⟨fun id a ha => ?_, fun id history hhistory => ?_⟩
  · rcases attempts_restoreAll_cases ha with ⟨job, hjob, rfl, -, hne⟩ | hbefore
    · exact ⟨known_restoreAll (.inr (List.mem_map_of_mem hjob)), hne⟩
    · exact ⟨known_restoreAll (.inl (h.attempts id a hbefore).1), (h.attempts id a hbefore).2⟩
  · rcases failureHistory_restoreAll_cases hhistory with ⟨job, hjob, rfl, -, hne⟩ | hbefore
    · exact ⟨known_restoreAll (.inr (List.mem_map_of_mem hjob)), hne⟩
    · have hold := h.failureHistory id history hbefore
      exact ⟨known_restoreAll (.inl hold.1), hold.2⟩

/-- A state with fewer counts and histories is as clean. -/
theorem SchedulerState.Clean.of_less {state state' : SchedulerState} (h : state.Clean)
    (hknown : ∀ id, (state.phases.get? id).isSome = true → (state'.phases.get? id).isSome = true)
    (hattempts : ∀ id a, state'.attempts.get? id = some a → state.attempts.get? id = some a)
    (hhistory : ∀ id history, state'.failureHistory.get? id = some history →
      state.failureHistory.get? id = some history) : state'.Clean :=
  ⟨fun id a ha => (h.attempts id a (hattempts id a ha)).imp_left (hknown id),
    fun id history hh => (h.failureHistory id history (hhistory id history hh)).imp_left (hknown id)⟩

/-- The failure that is recorded is that of a known job, whose counter does not wrap around. -/
def CountsUp (c : Cmd) (s : InProcessScheduler) : Prop :=
  ∀ id, c = .recordFailure id → (s.state.phases.get? id).isSome = true ∧
    (s.state.attempts.get? id).getD 0 + 1 ≠ 0

/-- **Every command keeps a state clean**, where failures count up. -/
theorem SchedulerState.Clean.after {s : InProcessScheduler} (h : s.state.Clean) (w : World) {c : Cmd}
    (hcounts : CountsUp c s) : (handle w c s).2.state.Clean := by
  have hknown : ∀ id, (s.state.phases.get? id).isSome = true →
      ((handle w c s).2.state.phases.get? id).isSome = true := fun id => known_handle w c s
  have hfailures := Prod.mk.inj (failures_handle w c s)
  cases c with
  | recordFailure id => exact h.recordFailure (hcounts id rfl).1 (hcounts id rfl).2 _
  | restoreState saved => exact h.restoreAll saved.jobs
  | clearFailures id =>
    refine h.of_less hknown (fun id' a ha => ?_) fun id' history hh => ?_
    · rw [hfailures.1, Map.get?_erase] at ha
      split at ha
      · simp at ha
      · exact ha
    · rw [hfailures.2, Map.get?_erase] at hh
      split at hh
      · simp at hh
      · exact hh
  | _ =>
    exact h.of_less hknown (fun id _ ha => (congrArg (Map.get? · id) hfailures.1.symm).trans ha)
      fun id _ hh => (congrArg (Map.get? · id) hfailures.2.symm).trans hh

/-- A failure that a tick records is that of a Running job. -/
theorem Sequential.known_of_recordFailure {m : SchedMachine} (hs : Sequential w m) {id : JobId}
    (hallows : (viewOf w 0 m.log).Allows (.recordFailure id)) :
    (m.state.state.phases.get? id).isSome = true := by
  obtain ⟨results, hfocus⟩ : ∃ results, (viewOf w 0 m.log).focus =
    .applying ((id, .error ()) :: results) := hallows
  have hrunning : m.state.phase id = .running :=
    hs.running id (by rw [hfocus]; exact List.mem_cons_self)
  rw [get?_of_phaseIn hrunning (by simp)]
  rfl

theorem Honest.step {m : SchedMachine} (hs : Sequential w m) (h : Honest w m) {c : Cmd}
    (hallows : (viewOf w 0 m.log).Allows c)
    (hfew : ∀ id, failedExecutions id (m.step (handle w) 0 c).log < 4294967296)
    (hearlier : RestoresEarlier w ⟨0, c, m.state⟩ m.log) :
    Honest w (m.step (handle w) 0 c) := by
  have hmono : ∀ id, failedExecutions id m.log ≤ failedExecutions id (m.step (handle w) 0 c).log :=
    fun id => failedExecutions_le_cons id _ m.log
  have hcount : ∀ id, c = .recordFailure id →
      failedExecutions id (m.step (handle w) 0 c).log = failedExecutions id m.log + 1 := by
    rintro id rfl
    exact failedExecutions_recordFailure id 0 m.state m.log
  have hcounts : CountsUp c m.state := by
    rintro id rfl
    refine ⟨hs.known_of_recordFailure hallows, fun hzero => ?_⟩
    have hsucc := (toNat_count_succ (h.bounded id) (hcount id rfl ▸ hfew id)).1
    rw [hzero] at hsucc
    simp at hsucc
  have hfailures := Prod.mk.inj (failures_handle w c m.state)
  refine ⟨h.clean.after w hcounts, fun id a ha => ?_, fun e he hcmd job hjob => ?_⟩
  · cases c with
    | recordFailure id' =>
      by_cases hid : id = id'
      · subst hid
        obtain ⟨hsucc, hle⟩ := toNat_count_succ (h.bounded id) (hcount id rfl ▸ hfew id)
        have hget := (Map.get?_insert_self m.state.state.attempts id _).symm.trans ha
        rw [hcount id rfl, ← Option.some.inj hget, hsucc]
        omega
      · have hold : m.state.state.attempts.get? id = some a :=
          (Map.get?_insert_ne m.state.state.attempts _ hid).symm.trans ha
        exact (h.bounded id a hold).trans (hmono id)
    | clearFailures id' =>
      rw [Machine.step, hfailures.1, Map.get?_erase] at ha
      split at ha
      · simp at ha
      · exact (h.bounded id a ha).trans (hmono id)
    | restoreState saved =>
      refine le_trans ?_ (hmono id)
      rcases attempts_restoreAll_cases ha with ⟨job, hjob, rfl, rfl, -⟩ | hbefore
      · obtain ⟨e, he, hcmd, rfl⟩ := hearlier saved rfl
        exact h.taken e he hcmd job hjob
      · exact h.bounded id a hbefore
    | _ =>
      exact (h.bounded id a ((congrArg (Map.get? · id) hfailures.1.symm).trans ha)).trans (hmono id)
  · rcases List.mem_cons.mp he with rfl | he
    · refine le_trans ?_ (hmono job.id)
      rw [(mem_project.mp hjob).2.1]
      cases hget : m.state.state.attempts.get? job.id with
      | none => exact Nat.zero_le _
      | some a => exact h.bounded job.id a hget
    · exact (h.taken e he hcmd job hjob).trans (hmono job.id)

theorem succ_ne_zero {a : UInt32} (h : a ≠ 4294967295) : a + 1 ≠ 0 := by
  grind

/-- If a failure is recorded, it does not wrap its counter around. -/
def NoWrap (e : SchedEvent) : Prop :=
  match e.cmd with
  | .recordFailure id => (e.pre.state.attempts.get? id).getD 0 ≠ 4294967295
  | _ => True

instance (e : SchedEvent) : Decidable (NoWrap e) := by
  unfold NoWrap
  split <;> infer_instance

/-- Whatever it restores, a run in which no counter wraps around keeps its state clean. -/
theorem clean_runCalls (w : World) (tool : String) (calls : List Call)
    (hwrap : ∀ e ∈ (runCalls w calls (InProcessScheduler.new tool).start).log, NoWrap e) :
    (runCalls w calls (InProcessScheduler.new tool).start).state.state.Clean := by
  refine (runCalls_induct (P := fun _ => True) (J := fun m => (∀ e ∈ m.log, NoWrap e) → m.state.state.Clean)
    (fun m c hs hJ hallows _ hwrap => ?_) (fun call (_ : call ∈ calls) => True.intro)
    (Sequential.start w _) (Resting.start w _) fun _ => ?_).1 hwrap
  · obtain ⟨hnow, hbefore⟩ := List.forall_mem_cons.mp hwrap
    refine (hJ hbefore).after w ?_
    rintro id rfl
    exact ⟨hs.known_of_recordFailure hallows, succ_ne_zero hnow⟩
  · exact ⟨fun _ _ h => absurd h (by simp [InProcessScheduler.start, InProcessScheduler.new]),
      fun _ _ h => absurd h (by simp [InProcessScheduler.start, InProcessScheduler.new])⟩

/-! ## The round trip -/

/-- Registering jobs only makes unknown ones Pending. -/
theorem runCalls_registerJob (w : World) (jobs : List ErasedJob) (m : SchedMachine) :
    let s := (runCalls w (jobs.map .registerJob) m).state.state
    s.attempts = m.state.state.attempts ∧ s.failureHistory = m.state.state.failureHistory ∧
    ∀ id, s.phases.get? id = if id ∈ jobs.map (·.id) then some (m.state.phase id)
      else m.state.state.phases.get? id := by
  induction jobs generalizing m with
  | nil => exact ⟨rfl, rfl, fun id => rfl⟩
  | cons job jobs ih =>
    obtain ⟨hattempts, hhistory, hphases⟩ := ih (m.step (handle w) 0 (.registerJob job))
    refine ⟨hattempts, hhistory, fun id => ?_⟩
    have hseed : ∀ id', Map.get? (seedPhase m.state.state.phases job.id) id' =
        if id' = job.id then some (m.state.phase id') else m.state.state.phases.get? id' := by
      intro id'
      unfold seedPhase InProcessScheduler.phase phaseIn
      split
      · next p hget =>
        by_cases hid : id' = job.id
        · simp [hid, hget]
        · simp [hid]
      · next hget =>
        rw [Map.get?_insert]
        by_cases hid : id' = job.id
        · simp [hid, hget]
        · simp [hid]
    have hphase : (m.step (handle w) 0 (.registerJob job)).state.phase id = m.state.phase id :=
      phase_of_not_moves w rfl m.state id
    apply (hphases id).trans
    rw [hphase, show Map.get? (m.step (handle w) 0 (.registerJob job)).state.state.phases id =
      _ from hseed id]
    by_cases hmem : id ∈ jobs.map (·.id)
    · simp [hmem]
    · by_cases hid : id = job.id
      · simp [hid]
      · simp [hmem, hid]

/-- The calls of a restart: some jobs are registered before the restore, some after it. -/
def restartCalls (before : List ErasedJob) (saved : SchedulerSnapshot) (after : List ErasedJob) :
    List Call :=
  before.map .registerJob ++ .restoreState saved :: after.map .registerJob

/-- `new` agrees with `old` on every job known to `old`. -/
def AgreesOnKnown (old new : SchedulerState) : Prop :=
  ∀ id, (old.phases.get? id).isSome = true → new.phases.get? id = old.phases.get? id ∧
    new.attempts.get? id = old.attempts.get? id ∧
    new.failureHistory.get? id = old.failureHistory.get? id

/-- The jobs registered with `new` and not known to `old` are Pending, with no attempts and no
history. -/
def FreshOtherwise (old new : SchedulerState) (jobs : List ErasedJob) : Prop :=
  ∀ job ∈ jobs, old.phases.get? job.id = none → new.phases.get? job.id = some .pending ∧
    new.attempts.get? job.id = none ∧ new.failureHistory.get? job.id = none

/-- A clean state survives a restart, wherever the restore stands among the registrations. -/
theorem SchedulerState.Clean.restart {old : SchedulerState} (h : old.Clean) (rank : JobId → Nat)
    (w : World) (tool : String) (before after : List ErasedJob) :
    let saved := project rank old.phases old.attempts old.failureHistory
    let new := (runCalls w (restartCalls before saved after)
      (InProcessScheduler.new tool).start).state.state
    AgreesOnKnown old new ∧ FreshOtherwise old new (before ++ after) := by
  intro saved new
  obtain ⟨hattempts₀, hhistory₀, hphases₀⟩ :=
    runCalls_registerJob w before (InProcessScheduler.new tool).start
  -- the machine after the first registrations, and after the restore
  set m₀ := runCalls w (before.map .registerJob) (InProcessScheduler.new tool).start with hm₀
  have hnone : ∀ id, m₀.state.state.attempts.get? id = none ∧
      m₀.state.state.failureHistory.get? id = none := fun id => by
    rw [hattempts₀, hhistory₀]
    exact ⟨rfl, rfl⟩
  have hrun : runCalls w (restartCalls before saved after) (InProcessScheduler.new tool).start =
      runCalls w (after.map .registerJob) (m₀.step (handle w) 0 (.restoreState saved)) := by
    rw [restartCalls, runCalls_append, ← hm₀]
    rfl
  obtain ⟨hattempts, hhistory, hphases⟩ :=
    runCalls_registerJob w after (m₀.step (handle w) 0 (.restoreState saved))
  rw [← hrun] at hattempts hhistory hphases
  have hnodup := project_ids_nodup rank old.phases old.attempts old.failureHistory
  refine ⟨fun id hknown => ?_, fun job hjob hunknown => ?_⟩
  · obtain ⟨phase, hphase⟩ := Option.isSome_iff_exists.mp hknown
    have hmem : (⟨id, phase, (old.attempts.get? id).getD 0,
        (old.failureHistory.get? id).getD []⟩ : StoredJobState) ∈ saved.jobs :=
      mem_project.mpr ⟨hphase, rfl, rfl⟩
    obtain ⟨hp, ha, hh⟩ := restoreAll_of_mem m₀.state.state hnodup hmem
    refine ⟨?_, ?_, ?_⟩
    · have hstored : (m₀.step (handle w) 0 (.restoreState saved)).state.phase id = phase := by
        show ((m₀.state.state.restoreAll saved.jobs).phases.get? id).getD .pending = phase
        rw [hp]
        rfl
      apply (hphases id).trans
      rw [hstored, hphase]
      exact ite_eq_left_iff.mpr fun _ => hp
    · rw [show new.attempts = _ from hattempts]
      apply ha.trans
      cases hget : old.attempts.get? id with
      | none => simpa using (hnone id).1
      | some a => simp [UInt32.pos_iff_ne_zero.mpr (h.attempts id a hget).2]
    · rw [show new.failureHistory = _ from hhistory]
      apply hh.trans
      cases hget : old.failureHistory.get? id with
      | none => simpa using (hnone id).2
      | some history => simp [(h.failureHistory id history hget).2]
  · have hnotMem : job.id ∉ saved.ids := by
      intro hmem
      obtain ⟨job', hjob', hid⟩ := List.mem_map.mp hmem
      have hget := (mem_project.mp hjob').1
      rw [hid, hunknown] at hget
      simp at hget
    obtain ⟨hp, ha, hh⟩ := restoreAll_of_not_mem m₀.state.state hnotMem
    refine ⟨?_, ?_, ?_⟩
    · have hbefore := (hp.trans (hphases₀ job.id))
      have hpending : (m₀.step (handle w) 0 (.restoreState saved)).state.phase job.id = .pending := by
        show ((m₀.state.state.restoreAll saved.jobs).phases.get? job.id).getD .pending = .pending
        rw [hbefore]
        split <;> rfl
      apply (hphases job.id).trans
      rw [hpending]
      refine ite_eq_left_iff.mpr fun hafter => hbefore.trans (if_pos ?_)
      rcases List.mem_append.mp hjob with hjob | hjob
      · exact List.mem_map_of_mem hjob
      · exact absurd (List.mem_map_of_mem hjob) hafter
    · rw [show new.attempts = _ from hattempts]
      exact ha.trans (hnone job.id).1
    · rw [show new.failureHistory = _ from hhistory]
      exact hh.trans (hnone job.id).2

/-- The fresh scheduler is clean. -/
theorem Honest.start (tool : String) : Honest w (InProcessScheduler.new tool).start :=
  ⟨⟨fun _ _ h => absurd h (by simp [InProcessScheduler.start, InProcessScheduler.new]),
    fun _ _ h => absurd h (by simp [InProcessScheduler.start, InProcessScheduler.new])⟩,
    fun _ _ h => absurd h (by simp [InProcessScheduler.start, InProcessScheduler.new]),
    fun _ h => absurd h (by simp [InProcessScheduler.start])⟩

/-- A run that restores only its own snapshots, and in which no job fails 2^32 times, is honest. -/
theorem honest_runCalls (w : World) (tool : String) (calls : List Call)
    (hearlier : Meets (RestoresEarlier w) (runCalls w calls (InProcessScheduler.new tool).start).log)
    (hfew : ∀ id, failedExecutions id (runCalls w calls (InProcessScheduler.new tool).start).log <
      4294967296) :
    Honest w (runCalls w calls (InProcessScheduler.new tool).start) := by
  have hrun := runCalls_induct (P := fun _ => True)
    (J := fun m => (∀ id, failedExecutions id m.log < 4294967296) →
      Meets (RestoresEarlier w) m.log → Honest w m)
    (fun m c hs hJ hallows _ hfew hearlier => ?_) (fun call (_ : call ∈ calls) => True.intro)
    (Sequential.start w (InProcessScheduler.new tool)) (Resting.start w _) (fun _ _ => Honest.start tool)
  · exact hrun.1 hfew hearlier
  · obtain ⟨hnow, hbefore⟩ := meets_cons.mp hearlier
    have hfewBefore : ∀ id, failedExecutions id m.log < 4294967296 := fun id =>
      (failedExecutions_le_cons id _ m.log).trans_lt (hfew id)
    exact (hJ hfewBefore hbefore).step hs hallows hfew hnow

/-- **A restart loses nothing.** Take any run from a fresh scheduler that restores only snapshots it
took earlier and in which no job fails 2^32 times. Restoring its snapshot into a new scheduler, in
any order with the registrations there, gives back the phase, the attempts and the history of every
job it knew; every other registered job is Pending, with neither. -/
theorem restart_roundTrip (w : World) (tool : String) (calls : List Call)
    (hearlier : Meets (RestoresEarlier w)
      (runCalls w calls (InProcessScheduler.new tool).start).log)
    (hfew : ∀ id, failedExecutions id
      (runCalls w calls (InProcessScheduler.new tool).start).log < 4294967296)
    (rank : JobId → Nat) (w' : World) (tool' : String) (before after : List ErasedJob) :
    let old := (runCalls w calls (InProcessScheduler.new tool).start).state.state
    let saved := project rank old.phases old.attempts old.failureHistory
    let new := (runCalls w' (restartCalls before saved after)
      (InProcessScheduler.new tool').start).state.state
    AgreesOnKnown old new ∧ FreshOtherwise old new (before ++ after) := by
  intro old saved new
  exact (honest_runCalls w tool calls hearlier hfew).clean.restart rank w' tool' before after

/-- A run that restores nothing restores only earlier snapshots. -/
theorem meets_restoresEarlier {calls : List Call}
    (hcalls : ∀ call ∈ calls, ∀ saved, call ≠ .restoreState saved) (s : InProcessScheduler) :
    Meets (RestoresEarlier w) (runCalls w calls s.start).log := by
  have hrun := runCalls_induct (J := fun m => Meets (RestoresEarlier w) m.log)
    (fun m c hs hJ hallows hc => ?_) hcalls (Sequential.start w s) (Resting.start w s)
    (meets_nil _)
  · exact hrun.1
  · refine meets_cons.mpr ⟨fun saved hcmd => ?_, hJ⟩
    obtain rfl : c = .restoreState saved := hcmd
    exact absurd rfl (hc saved)

/-- Job `a` has failed once when the scheduler is restarted, and `b` is new. -/
theorem restart_roundTrip_retrying :
    let calls : List Call := [.registerRetryPolicy ⟨"build"⟩ (.fixed 3 1000),
      .registerJob (Sample.job "a" .err), .tick (Dag.new.ensureNode (Sample.jobId "a"))]
    let old := (runCalls Sample.world calls (InProcessScheduler.new "t").start).state.state
    let saved := project (fun _ => 0) old.phases old.attempts old.failureHistory
    let new := (runCalls Sample.world (restartCalls [Sample.job "b" .ok] saved
      [Sample.job "a" .err]) (InProcessScheduler.new "t").start).state.state
    old.attempts.get? (Sample.jobId "a") = some 1 ∧ AgreesOnKnown old new ∧
      FreshOtherwise old new [Sample.job "b" .ok, Sample.job "a" .err] := by
  intro calls old saved new
  have hearlier : Meets (RestoresEarlier Sample.world)
      (runCalls Sample.world calls (InProcessScheduler.new "t").start).log :=
    meets_restoresEarlier (by simp [calls]) _
  have hfew : ∀ id, failedExecutions id
      (runCalls Sample.world calls (InProcessScheduler.new "t").start).log < 4294967296 :=
    fun id => List.countP_le_length.trans_lt (by decide +kernel)
  exact ⟨by decide +kernel, restart_roundTrip Sample.world "t" calls hearlier hfew (fun _ => 0)
    Sample.world "t" [Sample.job "b" .ok] [Sample.job "a" .err]⟩

end Shigoto
