import Shigoto.Scheduler.Journal
import Shigoto.Scheduler.Legality
import Shigoto.Scheduler.Lifecycle
import Shigoto.Scheduler.Passes

/-!
# Panics

The result of a task that panics is dropped, and nothing else happens to its job: it stays Running, no
receipt mentions it, and the next tick that collects it executes it again, without another start. On a
run without panics each execution is matched by a start of its own (`Matched`).
-/

namespace Shigoto

open Atomic

variable {w : World} {m : SchedMachine} {id : JobId} {c : Cmd}

/-! ## Starts -/

/-- The event takes `id` from Ready to Running. -/
def entersRunning (w : World) (id : JobId) (e : SchedEvent) : Bool :=
  e.pre.phase id = .ready ∧ (handle w e.cmd e.pre).2.phase id = .running

/-- How often `id` was started in a log. -/
def startsOf (w : World) (id : JobId) (log : List SchedEvent) : Nat := log.countP (entersRunning w id)

theorem startsOf_step (w : World) (id : JobId) (c : Cmd) (m : SchedMachine) :
    startsOf w id (m.step (handle w) 0 c).log = startsOf w id m.log +
      if m.state.phase id = .ready ∧ (handle w c m.state).2.phase id = .running then 1 else 0 := by
  simp [startsOf, entersRunning, Machine.step, List.countP_cons]

/-- `id` was started and is not executed yet. -/
def pendingStart (w : World) (id : JobId) (m : SchedMachine) : Nat :=
  if m.state.phase id = .running ∧ id ∉ (viewOf w 0 m.log).focus.executed then 1 else 0

/-- Without panics each execution has a start of its own, before it. -/
structure Matched (w : World) (m : SchedMachine) : Prop where
  complete : (viewOf w 0 m.log).focus.Complete
  balance : ∀ id, startsOf w id m.log = executions id m.log + pendingStart w id m

/-- Executions never outnumber the starts. -/
def Started (w : World) (log : List SchedEvent) : Prop :=
  ∀ past, past <:+ log → ∀ id, executions id past ≤ startsOf w id past

section

variable (hs : Sequential w m) (hallows : (viewOf w 0 m.log).Allows c)

include hs hallows

/-- A job whose result is applied was executed. -/
theorem executed_of_left (hrestore : ∀ saved, c ≠ .restoreState saved)
    (hbefore : m.state.phase id = .running) (hafter : (handle w c m.state).2.phase id ≠ .running) :
    id ∈ (viewOf w 0 m.log).focus.executed := by
  have hresult := (View.running_of_lands (w := w) hallows (View.Sound.lands hs hallows) hrestore
    hbefore).resolve_left hafter
  obtain ⟨signal, rfl, hsignal⟩ : ∃ signal, c = .dispatch id signal ∧
      (signal = .executionSucceeded ∨ signal = .executionFailed) := by
    rcases hresult with rfl | rfl
    · exact ⟨_, rfl, .inl rfl⟩
    · exact ⟨_, rfl, .inr rfl⟩
  rcases Due.work_dispatched hallows with ⟨hrest, -⟩ | ⟨-, -, hcons, -⟩
  · have hflight := Due.mem_flight hallows hsignal
    rw [hrest.flight] at hflight
    exact absurd hflight List.not_mem_nil
  · rw [hcons]
    exact List.mem_cons_self

/-- A job is spawned while it is Running, and before it counts as executed. -/
theorem running_of_spawn {job : Option ErasedJob} {timeout : Option Duration}
    (hc : c = .spawn id job timeout) :
    m.state.phase id = .running ∧ id ∉ (viewOf w 0 m.log).focus.executed ∧
      id ∈ ((viewOf w 0 m.log).next c (handle w c m.state).1).focus.executed := by
  subst hc
  obtain ⟨hahead, hspawned, -⟩ :=
    View.work_spawn hallows (handle w (.spawn id job timeout) m.state).1
  have hflight : id ∈ (viewOf w 0 m.log).focus.flight := by
    rw [Focus.flight_eq, hahead]
    exact List.mem_cons_self
  have hnodup := hs.nodup
  rw [Focus.flight_eq, hahead] at hnodup
  refine ⟨hs.running id hflight, fun hmem => ?_, ?_⟩
  · exact (List.nodup_cons.mp hnodup).1 (List.mem_append_right _ hmem)
  · have hid : (handle w (.spawn id job timeout) m.state).1.id = id := by cases job <;> rfl
    simp [Focus.executed, hspawned, hid]

/-- **Each command keeps the balance** of starts and executions. -/
theorem Matched.balance_step (h : Matched w m) (hrestore : ∀ saved, c ≠ .restoreState saved)
    (id : JobId) : startsOf w id (m.step (handle w) 0 c).log =
      executions id (m.step (handle w) 0 c).log + pendingStart w id (m.step (handle w) 0 c) := by
  have hbalance := h.balance id
  have hphase : (m.step (handle w) 0 c).state.phase id = (handle w c m.state).2.phase id := rfl
  rw [startsOf_step, hbalance]
  unfold pendingStart
  rw [viewOf_step_self, hphase]
  by_cases hspawn : ∃ job timeout, c = .spawn id job timeout
  · obtain ⟨job, timeout, hc⟩ := hspawn
    obtain ⟨hrunning, hnot, hexecuted⟩ := running_of_spawn hs hallows hc
    subst hc
    rw [Machine.step, executions_spawn]
    simp [hrunning, hnot, hexecuted]
  · have hquiet : ∀ job timeout, c ≠ .spawn id job timeout := fun job timeout hc =>
      hspawn ⟨job, timeout, hc⟩
    rw [Machine.step, executions_cons_of_ne hquiet]
    by_cases hafter : (handle w c m.state).2.phase id = .running
    · by_cases hbefore : m.state.phase id = .running
      · have hexecuted := View.mem_executed_next hallows (View.Sound.lands hs hallows) h.complete hquiet
          hafter
        simp [hbefore, hafter, hexecuted]
      · -- the job is started
        obtain ⟨hfocus, rfl, -⟩ := View.granted_of_started hallows hrestore hbefore hafter
        have hready := hs.agrees
        rw [hfocus] at hready
        have hready : m.state.phase id = .ready := hready
        have hnone : id ∉ ((viewOf w 0 m.log).next (.dispatch id .allocateBudget)
            (handle w (.dispatch id .allocateBudget) m.state).1).focus.executed := by
          rw [answer_dispatch_ok w (advance_allocateBudget_iff.mpr ⟨hready, rfl⟩)]
          simp [View.next, hfocus, Focus.dispatched, Focus.executed, Focus.spawned, Focus.unapplied]
        simp [hready, hafter, hnone]
    · by_cases hbefore : m.state.phase id = .running
      · simp [hafter, executed_of_left hs hallows hrestore hbefore hafter]
      · simp [hafter, hbefore]

end

theorem Matched.step (hs : Sequential w m) (h : Matched w m) (hallows : (viewOf w 0 m.log).Allows c)
    (hrestore : ∀ saved, c ≠ .restoreState saved) (hpanic : panics w ⟨0, c, m.state⟩ = false) :
    Matched w (m.step (handle w) 0 c) := by
  refine ⟨?_, h.balance_step hs hallows hrestore⟩
  rw [viewOf_step_self]
  exact h.complete.next hallows hpanic

theorem Started.step (hstarted : Started w m.log) (hmatched : Matched w (m.step (handle w) 0 c)) :
    Started w (m.step (handle w) 0 c).log := by
  intro past hpast id
  rcases List.suffix_cons_iff.mp hpast with rfl | hpast
  · have hbalance := hmatched.balance id
    show executions id (m.step (handle w) 0 c).log ≤ startsOf w id (m.step (handle w) 0 c).log
    omega
  · exact hstarted past hpast id

/-- **Without panics executions never outnumber the starts.** -/
theorem started_of_no_panic {calls : List Call} (hcalls : ∀ call ∈ calls, call.live)
    (s : InProcessScheduler) (hfresh : ∀ id, s.phase id ≠ .running)
    (hpanic : ∀ e ∈ (runCalls w calls s.start).log, panics w e = false) :
    Started w (runCalls w calls s.start).log := by
  have hrun := runCalls_induct (w := w) (P := Call.live)
    (J := fun m => (∀ e ∈ m.log, panics w e = false) → Matched w m ∧ Started w m.log)
    (fun m c hs hJ hallows hc hquiet => ?_) hcalls (Sequential.start w s) (Resting.start w s)
    fun _ => ⟨⟨by simp [Focus.Complete, viewOf, history, InProcessScheduler.start, view, View.start,
      Focus.spawned], fun id => ?_⟩, fun past hpast id => ?_⟩
  · exact (hrun.1 hpanic).2
  · obtain ⟨hmatched, hstarted⟩ := hJ fun e he => hquiet e (List.mem_cons_of_mem _ he)
    have hrestore : ∀ saved, c ≠ .restoreState saved := by
      rintro saved rfl
      exact hc
    have hnext := hmatched.step hs hallows hrestore (hquiet _ List.mem_cons_self)
    exact ⟨hnext, hstarted.step hnext⟩
  · simp [startsOf, executions, InProcessScheduler.start, pendingStart, hfresh]
  · rw [List.suffix_nil.mp hpast]
    exact le_rfl

/-! ## Lost results -/

/-- The jobs executed so far are not ahead, and one whose result was lost is Running. -/
def LostStay (w : World) (ahead : List JobId) (m : SchedMachine) : Prop :=
  ∀ task ∈ runs w m.log, task.id ∉ ahead ∧ (task.result = none → m.state.phase task.id = .running)

theorem LostStay.drove {ahead ids : List JobId} {m' : SchedMachine} (h : LostStay w ahead m)
    (hdrove : Drove w ids m m') : LostStay w ahead m' := by
  intro task htask
  rw [hdrove.runs] at htask
  obtain ⟨hahead, hrunning⟩ := h task htask
  refine ⟨hahead, fun hlost => ?_⟩
  rw [hdrove.others task.id (.inr (.inl (hrunning hlost)))]
  exact hrunning hlost

theorem LostStay.executed {wave ahead : List JobId} {tasks : List Task} {m' : SchedMachine}
    (h : LostStay w (wave ++ ahead) m) (hnodup : (wave ++ ahead).Nodup)
    (hexecuted : Executed w (m.state.runningOf wave) tasks m m') : LostStay w ahead m' := by
  intro task htask
  rw [hexecuted.runs] at htask
  rcases List.mem_append.mp htask with hold | hnew
  · obtain ⟨hahead, hrunning⟩ := h task hold
    rw [List.mem_append, not_or] at hahead
    refine ⟨hahead.2, fun hlost => ?_⟩
    rw [hexecuted.others task.id fun hmem => hahead.1 (InProcessScheduler.mem_runningOf.mp hmem).1]
    exact hrunning hlost
  · have hid : task.id ∈ m.state.runningOf wave := hexecuted.ran.map_id ▸ List.mem_map_of_mem hnew
    refine ⟨fun hahead => ?_, fun hlost => ?_⟩
    · exact (List.nodup_append'.mp hnodup).2.2 (InProcessScheduler.mem_runningOf.mp hid).1 hahead
    · rw [hexecuted.moved task hnew, Task.phase, hlost]
      rfl

theorem wp_runWaves_lost (dag : Dag) {waves : List (List JobId)} (hnodup : waves.flatten.Nodup)
    (transitions : List TransitionEvent) (h : LostStay w waves.flatten m) :
    wp (handle w) 0 (runWaves dag waves transitions) (fun _ m' => LostStay w [] m')
      (fun e _ => e.refusal) m := by
  induction waves generalizing m transitions with
  | nil => exact h
  | cons wave waves ih =>
    rw [List.flatten_cons] at hnodup h
    have hwave := (List.nodup_append'.mp hnodup).1
    have hrest := (List.nodup_append'.mp hnodup).2.1
    apply wp_bind.mpr
    refine wp_mono (wp_drives (issues_pass1 dag wave transitions)) (fun transitions₁ m₁ h₁ => ?_)
      fun _ _ he => he.1
    apply wp_bind.mpr
    refine wp_mono (wp_pass2 hwave) ?_ fun _ _ he => he.elim
    rintro transitions₂ m₂ ⟨tasks, new, h₂, -⟩
    apply wp_bind.mpr
    refine wp_mono (wp_drives (issues_pass3 dag wave transitions₂)) (fun transitions₃ m₃ h₃ => ?_)
      fun _ _ he => he.1
    exact ih hrest transitions₃ (((h.drove h₁).executed hnodup h₂).drove h₃)

/-- **A tick loses sight of the job of a lost result**: it stays Running, and the receipt does not
list it. -/
theorem tick_loses (w : World) (s : InProcessScheduler) (dag : Dag) {task : Task}
    (htask : task ∈ runs w ((tick dag).exec (handle w) 0 s.start).2.log) (hlost : task.result = none) :
    ((tick dag).exec (handle w) 0 s.start).2.state.phase task.id = .running ∧
      ∀ receipt, ((tick dag).exec (handle w) 0 s.start).1 = .ok receipt →
        ∀ drift ∈ receipt.unhealed, drift.jobId ≠ task.id := by
  have hspec : wp (handle w) 0 (tick dag)
      (fun receipt m' => LostStay w [] m' ∧ ∃ rank spelling,
        receipt.unhealed = collectUnhealed rank spelling m'.state.state.phases)
      (fun e m' => e.refusal ∨ runs w m'.log = []) s.start := by
    refine wp_tick (fun e _ => .inr rfl) fun ws hwaves => ?_
    refine wp_mono (wp_runWaves_lost dag (Dag.waves_nodup hwaves) [] fun task htask => ?_)
      (fun transitions m' hm' => ?_) fun _ _ he => .inl he
    · exact absurd htask List.not_mem_nil
    · exact ⟨hm', _, _, rfl⟩
  have hexec := wp_iff_exec.mp hspec
  cases hend : ((tick dag).exec (handle w) 0 s.start).1 with
  | error e =>
    -- a tick that fails has executed nothing
    have hnot := tick_not_refused dag s.start e hend
    rw [(hexec.2 e hend).resolve_left hnot] at htask
    exact absurd htask List.not_mem_nil
  | ok receipt =>
    obtain ⟨hstay, rank, spelling, hunhealed⟩ := hexec.1 receipt hend
    have hrunning := (hstay task htask).2 hlost
    refine ⟨hrunning, fun receipt' hreceipt drift hdrift hid => ?_⟩
    obtain rfl := Except.ok.inj hreceipt
    rw [hunhealed] at hdrift
    obtain ⟨id, phase, hget, hphase, rfl⟩ := mem_collectUnhealed.mp hdrift
    obtain rfl : id = task.id := hid
    rw [InProcessScheduler.phase, phaseIn, hget] at hrunning
    obtain rfl : phase = .running := hrunning
    simp at hphase

/-! ## Where a panic happens -/

/-- The log of one more call. -/
theorem runCalls_snoc_log (w : World) (calls : List Call) (call : Call) (s : InProcessScheduler) :
    (runCalls w (calls ++ [call]) s.start).log =
      (runCalls w [call] (runCalls w calls s.start).state.start).log ++ (runCalls w calls s.start).log := by
  rw [runCalls_append]
  set m := runCalls w calls s.start
  exact congrArg (fun r => r.2.log) (exec_log (h := handle w) (t := 0) call.prog m.state.start m.log)

/-- What a run logged is what its calls logged. -/
theorem mem_runCalls_log {calls : List Call} {s : InProcessScheduler} {e : SchedEvent} :
    e ∈ (runCalls w calls s.start).log ↔ ∃ before call after, calls = before ++ call :: after ∧
      e ∈ (runCalls w [call] (runCalls w before s.start).state.start).log := by
  induction calls using List.reverseRecOn with
  | nil =>
    refine iff_of_false List.not_mem_nil ?_
    rintro ⟨before, call, after, hsplit, -⟩
    simp at hsplit
  | append_singleton calls call ih =>
    rw [runCalls_snoc_log, List.mem_append, ih]
    constructor
    · rintro (hnew | ⟨before, call', after, rfl, hmem⟩)
      · exact ⟨calls, call, [], rfl, hnew⟩
      · exact ⟨before, call', after ++ [call], by simp, hmem⟩
    · rintro ⟨before, call', after, hsplit, hmem⟩
      induction after using List.reverseRecOn with
      | nil =>
        obtain ⟨rfl, hcall⟩ := List.append_inj' hsplit rfl
        obtain rfl : call = call' := by simpa using hcall
        exact .inl hmem
      | append_singleton after last _ =>
        have hinit : calls = before ++ call' :: after :=
          (List.append_inj' (hsplit.trans (List.append_assoc before (call' :: after) [last]).symm) rfl).1
        exact .inr ⟨before, call', after, hinit, hmem⟩

/-- Only a tick executes jobs. -/
theorem tick_of_spawn {call : Call} {s : InProcessScheduler} {e : SchedEvent}
    (he : e ∈ (runCalls w [call] s.start).log) {id : JobId} {job : Option ErasedJob}
    {timeout : Option Duration} (hcmd : e.cmd = .spawn id job timeout) : ∃ dag, call = .tick dag := by
  have honly : ∀ call' ∈ [call], call' = call := by simp
  have hrun := runCalls_induct (w := w)
    (J := fun m => ∀ e ∈ m.log, ∀ id job timeout, e.cmd = .spawn id job timeout → ∃ dag, call = .tick dag)
    (fun m c hs hJ hallows hc => ?_) honly (Sequential.start w s) (Resting.start w s)
    (by simp [InProcessScheduler.start])
  · exact hrun.1 e he id job timeout hcmd
  · intro e he id job timeout hcmd
    rcases List.mem_cons.mp he with rfl | hold
    · obtain rfl : c = .spawn id job timeout := hcmd
      exact ⟨_, Eq.symm hc⟩
    · exact hJ e hold id job timeout hcmd

/-! ## The result -/

/-- Each job whose result was lost in this tick is not Running any more, or is in the receipt. -/
def LossesShown (w : World) (s : InProcessScheduler) (dag : Dag) : Prop :=
  let run := (tick dag).exec (handle w) 0 s.start
  ∀ task ∈ runs w run.2.log, task.result = none → run.2.state.phase task.id ≠ .running ∨
    ∃ receipt, run.1 = .ok receipt ∧ ∃ drift ∈ receipt.unhealed, drift.jobId = task.id

/-- **Executions follow starts exactly when nothing panics.** On a run from a fresh scheduler without
restores, executions never outnumber starts and each tick shows the jobs whose results it lost, if and
only if no execution of the run panics. -/
theorem executions_follow_starts_iff (w : World) (tool : String) {calls : List Call}
    (hcalls : ∀ call ∈ calls, call.live) :
    let run := fun calls => runCalls w calls (InProcessScheduler.new tool).start
    (Started w (run calls).log ∧ ∀ before dag after, calls = before ++ .tick dag :: after →
      LossesShown w (run before).state dag) ↔ ∀ e ∈ (run calls).log, panics w e = false := by
  intro run
  have htick : ∀ before dag, (runCalls w [.tick dag] (run before).state.start).log =
      ((tick dag).exec (handle w) 0 (run before).state.start).2.log := fun before dag =>
    congrArg Machine.log (exec_discard _ _)
  constructor
  · rintro ⟨-, hshown⟩ e he
    by_contra hpanic
    rw [Bool.not_eq_false] at hpanic
    obtain ⟨id, job, timeout, hcmd⟩ := spawns_of_panics hpanic
    obtain ⟨before, call, after, hsplit, hmem⟩ := mem_runCalls_log.mp he
    obtain ⟨dag, rfl⟩ := tick_of_spawn hmem hcmd
    rw [htick] at hmem
    obtain ⟨task, htask, hlost⟩ := exists_lost_iff.mpr ⟨e, hmem, hpanic⟩
    obtain ⟨hrunning, hunlisted⟩ := tick_loses w (run before).state dag htask hlost
    rcases hshown before dag after hsplit task htask hlost with hnot | ⟨receipt, hok, drift, hdrift, hid⟩
    · exact hnot hrunning
    · exact hunlisted receipt hok drift hdrift hid
  · intro hpanic
    refine ⟨started_of_no_panic hcalls _ (fun id => by simp [InProcessScheduler.new,
      InProcessScheduler.phase, phaseIn]) hpanic, fun before dag after hsplit task htask hlost => ?_⟩
    obtain ⟨e, he, hpanics⟩ := exists_lost_iff.mp ⟨task, htask, hlost⟩
    rw [← htick] at he
    have hquiet := hpanic e (mem_runCalls_log.mpr ⟨before, _, after, hsplit, he⟩)
    exact Bool.noConfusion (hpanics.symm.trans hquiet)

/-- A job that panics is executed by every tick, and started once. -/
theorem panic_executes_again :
    let calls := [.registerJob (Sample.job "a" .panic), .tick (Sample.single "a"),
      .tick (Sample.single "a")]
    let m := runCalls Sample.world calls (InProcessScheduler.new "t").start
    executions (Sample.jobId "a") m.log = 2 ∧ startsOf Sample.world (Sample.jobId "a") m.log = 1 ∧
    ¬ Started Sample.world m.log ∧
    ¬ LossesShown Sample.world (runCalls Sample.world [.registerJob (Sample.job "a" .panic)]
      (InProcessScheduler.new "t").start).state (Sample.single "a") := by
  intro calls m
  have hexecutions : executions (Sample.jobId "a") m.log = 2 := by decide +kernel
  have hstarts : startsOf Sample.world (Sample.jobId "a") m.log = 1 := by decide +kernel
  refine ⟨hexecutions, hstarts, fun h => ?_, fun h => ?_⟩
  · have hle := h m.log List.suffix_rfl (Sample.jobId "a")
    omega
  · have hpanic : ((tick (Sample.single "a")).exec (handle Sample.world) 0 (runCalls Sample.world
        [.registerJob (Sample.job "a" .panic)] (InProcessScheduler.new "t").start).state.start).2.log.any
          (panics Sample.world) = true := by decide +kernel
    obtain ⟨task, htask, hlost⟩ := exists_lost_iff.mpr (List.any_eq_true.mp hpanic)
    obtain ⟨hrunning, hunlisted⟩ := tick_loses _ _ _ htask hlost
    rcases h task htask hlost with hnot | ⟨receipt, hok, drift, hdrift, hid⟩
    · exact hnot hrunning
    · exact hunlisted receipt hok drift hdrift hid

/-- Nothing panics when both jobs return, one of them in error. -/
theorem executions_follow_starts_pair :
    let run := fun calls => runCalls Sample.world calls (InProcessScheduler.new "t").start
    let calls := Sample.onceOn Sample.pair .err .ok
    executions (Sample.jobId "a") (run calls).log = 1 ∧ Started Sample.world (run calls).log := by
  intro run calls
  have hcalls : ∀ call ∈ calls, call.live := by simp [calls, Sample.onceOn, Call.live]
  refine ⟨by decide +kernel, ?_⟩
  exact ((executions_follow_starts_iff Sample.world "t" hcalls).mpr (by decide +kernel)).1

end Shigoto
