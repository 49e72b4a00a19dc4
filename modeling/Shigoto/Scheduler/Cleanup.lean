import Shigoto.Scheduler.BudgetSafety
import Shigoto.Scheduler.Lifecycle

/-!
# PASS 3 cleans up

PASS 3 drives the jobs of a wave with the same steps as PASS 1. When it comes to a job that is Ready
and a slot is free, it takes the slot, although PASS 2 of the wave is over: the job is Running after
the tick, and nobody executes it. This is the only way to leave a job Running: on a run without
panics in which PASS 3 takes no slot, each slot is used for one execution and given back before the
tick returns, and between two calls nothing is Running.
-/

namespace Shigoto

open Atomic BudgetTree

variable {w : World}

/-! ## The life of a slot -/

inductive SlotStage
  | free
  | taken
  | used
  deriving DecidableEq

/-- What an event does with the slot of `id`: it is taken, used for an execution, and released. -/
def slotTurn (id : JobId) (e : SchedEvent) : Option (SlotStage × SlotStage) :=
  match e.cmd with
  | .tryAllocate id' =>
    if id' = id ∧ (e.pre.budget.tryAllocate id').1.isOk = true then some (.free, .taken) else none
  | .spawn id' _ _ => if id' = id then some (.taken, .used) else none
  | .release id' => if id' = id then some (.used, .free) else none
  | _ => none

/-- The stage that the slot of `id` is in after a log, if it only made turns in this order. -/
def slotStage (id : JobId) (log : List SchedEvent) : Option SlotStage := follow (slotTurn id) .free log

/-- The jobs whose slot has been used for an execution and is not given back yet. -/
def Focus.used (focus : Focus) : List JobId := focus.returning ++ focus.executed

theorem Focus.SameWork.used {focus focus' : Focus} (h : focus.SameWork focus') :
    focus.used = focus'.used := by
  rw [Focus.used, Focus.used, h.2.2.2, h.executed]

theorem Focus.used_of_idle {focus : Focus} (h : focus.idle = true) : focus.used = [] :=
  (Focus.sameWork_rest h).used

/-- Only a spawn and a release change which slots have been used. -/
theorem View.mem_used_next {v : View} {s : InProcessScheduler} {c : Cmd} (hallows : v.Allows c)
    (hlands : c.Lands s) (hcomplete : v.focus.Complete)
    (hspawn : ∀ id job timeout, c ≠ .spawn id job timeout) (hrelease : ∀ id, c ≠ .release id)
    (id : JobId) : id ∈ (v.next c (handle w c s).1).focus.used ↔ id ∈ v.focus.used := by
  cases hworks : c.works with
  | false => rw [(View.sameWork_next hallows hworks).used]
  | true =>
    cases c with
    | spawn id' job timeout => exact absurd rfl (hspawn id' job timeout)
    | release id' => exact absurd rfl (hrelease id')
    | runningOf wave =>
      rw [Focus.used_of_idle hallows.1]
      cases (handle w (.runningOf wave) s).1 <;> exact Iff.rfl
    | join tasks =>
      have hreturning : v.focus.returning = [] := by rw [show v.focus = _ from hallows]; rfl
      rw [Focus.used, Focus.used, hreturning]
      exact View.mem_executed_join hallows hcomplete id
    | dispatch id' signal =>
      obtain ⟨target, hadvance⟩ := hlands
      rw [answer_dispatch_ok w hadvance]
      show id ∈ v.focus.dispatched.used ↔ _
      rcases Due.work_dispatched hallows with ⟨hbefore, hafter⟩ | ⟨-, -, hexecuted, hbefore, hafter⟩
      · rw [hbefore.used, hafter.used]
      · rw [Focus.used, Focus.used, hbefore, hafter, hexecuted]
        rfl
    | _ => simp [Cmd.works] at hworks

/-! ## The invariant -/

/-- The stage of a slot, given the slots held and those used. -/
def stageIn (held : Multiset JobId) (used : List JobId) (id : JobId) : SlotStage :=
  if id ∈ held then if id ∈ used then .used else .taken else .free

theorem stageIn_congr {held held' : Multiset JobId} {used used' : List JobId} {id : JobId}
    (hheld : id ∈ held' ↔ id ∈ held) (hused : id ∈ used' ↔ id ∈ used) :
    stageIn held' used' id = stageIn held used id := by
  simp only [stageIn, hheld, hused]

/-- What a run without panics and late grants keeps. -/
structure CleansUp (w : World) (m : SchedMachine) : Prop where
  complete : (viewOf w 0 m.log).focus.Complete
  early : ∀ id, (viewOf w 0 m.log).focus = .granted id → (viewOf w 0 m.log).pass.final = false
  /-- Every Running job is taken care of. -/
  expects : ∀ id, m.state.phase id = .running → (viewOf w 0 m.log).Expects id
  stages : ∀ id, slotStage id m.log =
    some (stageIn (heldSlots 0 m.log) (viewOf w 0 m.log).focus.used id)

/-- The stage after a turn of the slot. -/
theorem CleansUp.stage_turn {m : SchedMachine} (h : CleansUp w m) {c : Cmd} {id : JobId}
    {a b : SlotStage} (hturn : slotTurn id ⟨0, c, m.state⟩ = some (a, b))
    (hbefore : stageIn (heldSlots 0 m.log) (viewOf w 0 m.log).focus.used id = a) :
    slotStage id (m.step (handle w) 0 c).log = some b :=
  follow_cons_some hturn ((h.stages id).trans (congrArg some hbefore))

/-- The stage after an event that is no turn of the slot. -/
theorem CleansUp.stage_quiet {m : SchedMachine} (h : CleansUp w m) {c : Cmd} {id : JobId}
    {used' : List JobId} (hturn : slotTurn id ⟨0, c, m.state⟩ = none)
    (hheld : id ∈ slotsAfter m.state (heldSlots 0 m.log) c ↔ id ∈ heldSlots 0 m.log)
    (hused : id ∈ used' ↔ id ∈ (viewOf w 0 m.log).focus.used) :
    slotStage id (m.step (handle w) 0 c).log =
      some (stageIn (heldSlots 0 (m.step (handle w) 0 c).log) used' id) := by
  rw [slotStage, Machine.step, follow_cons_none hturn, ← slotStage, h.stages id]
  exact congrArg some (stageIn_congr hheld hused).symm

/-- A job that is spawned holds a slot that has not been used. -/
theorem CleansUp.stages_spawn {cap : Dim → Option UInt32} {m : SchedMachine} (hs : Sequential w m)
    (hb : WithinBudget w cap m) (h : CleansUp w m) {id' : JobId} {job : Option ErasedJob}
    {timeout : Option Duration} (hallows : (viewOf w 0 m.log).Allows (.spawn id' job timeout))
    (id : JobId) :
    slotStage id (m.step (handle w) 0 (.spawn id' job timeout)).log =
      some (stageIn (heldSlots 0 (m.step (handle w) 0 (.spawn id' job timeout)).log)
        ((viewOf w 0 m.log).next (.spawn id' job timeout)
          (handle w (.spawn id' job timeout) m.state).1).focus.used id) := by
  obtain ⟨hahead, hspawned, hunapplied, hreturning⟩ :=
    View.work_spawn hallows (handle w (.spawn id' job timeout) m.state).1
  have hid' : (handle w (.spawn id' job timeout) m.state).1.id = id' := by cases job <;> rfl
  have hused : ∀ i, i ∈ ((viewOf w 0 m.log).next (.spawn id' job timeout)
      (handle w (.spawn id' job timeout) m.state).1).focus.used ↔
      i = id' ∨ i ∈ (viewOf w 0 m.log).focus.used := by
    intro i
    simp only [Focus.used, Focus.executed, hspawned, hunapplied, hreturning, List.map_append,
      List.map_singleton, hid', List.mem_append, List.mem_singleton]
    tauto
  by_cases hid : id = id'
  · subst hid
    have hflight : id ∈ (viewOf w 0 m.log).focus.flight := by
      rw [Focus.flight_eq, hahead]
      exact List.mem_cons_self
    have hheld : id ∈ heldSlots 0 m.log := by
      rw [hb.held]
      exact Multiset.mem_add.mpr (.inr (InProcessScheduler.mem_running.mpr (hs.running id hflight)))
    -- no job is in flight twice, so the one that is spawned has no task yet
    have hunused : id ∉ (viewOf w 0 m.log).focus.used := by
      have hnodup := hs.nodup
      rw [Focus.flight_eq, hahead] at hnodup
      obtain ⟨ids, tasks, hfocus⟩ : ∃ ids tasks,
        (viewOf w 0 m.log).focus = .fetched id job timeout ids tasks := hallows
      have hnone : (viewOf w 0 m.log).focus.returning = [] := by
        rw [hfocus]
        rfl
      rw [Focus.used, hnone, List.nil_append]
      exact fun hmem => (List.nodup_cons.mp hnodup).1 (List.mem_append_right _ hmem)
    have hturn : slotTurn id ⟨0, .spawn id job timeout, m.state⟩ = some (.taken, .used) := by
      simp [slotTurn]
    rw [h.stage_turn hturn (by simp [stageIn, hheld, hunused]), stageIn, if_pos, if_pos]
    · exact (hused id).mpr (.inl rfl)
    · exact hheld
  · apply h.stage_quiet (by simp [slotTurn, Ne.symm hid]) Iff.rfl
    rw [hused, or_iff_right hid]

/-- A slot that is released has been used. -/
theorem CleansUp.stages_release {cap : Dim → Option UInt32} {m : SchedMachine} (hs : Sequential w m)
    (hb : WithinBudget w cap m) (h : CleansUp w m) {id' : JobId}
    (hallows : (viewOf w 0 m.log).Allows (.release id')) (id : JobId) :
    slotStage id (m.step (handle w) 0 (.release id')).log =
      some (stageIn (heldSlots 0 (m.step (handle w) 0 (.release id')).log)
        ((viewOf w 0 m.log).next (.release id') ()).focus.used id) := by
  obtain ⟨-, hspawned, hunapplied, hreturning, hreturned⟩ := View.work_release hallows ()
  have hused : ∀ i, i ∈ (viewOf w 0 m.log).focus.used ↔
      i = id' ∨ i ∈ ((viewOf w 0 m.log).next (.release id') ()).focus.used := by
    intro i
    simp only [Focus.used, Focus.executed, hspawned, hunapplied, hreturning, hreturned,
      List.mem_append, List.mem_singleton, List.not_mem_nil, false_or]
  obtain ⟨results, hfocus⟩ : ∃ results, (viewOf w 0 m.log).focus = .releasing id' results := hallows
  by_cases hid : id = id'
  · subst hid
    have hheld : heldSlots 0 m.log = id ::ₘ m.state.running := by
      rw [hb.held, hfocus]
      rfl
    have hnotRunning : id ∉ m.state.running := by
      rw [InProcessScheduler.mem_running]
      have hagrees := hs.agrees
      rw [hfocus] at hagrees
      rcases hagrees with hphase | hphase <;> rw [hphase] <;> simp
    have hturn : slotTurn id ⟨0, .release id, m.state⟩ = some (.used, .free) := by simp [slotTurn]
    have hstage : stageIn (heldSlots 0 m.log) (viewOf w 0 m.log).focus.used id = .used := by
      rw [stageIn, if_pos, if_pos]
      · exact (hused id).mpr (.inl rfl)
      · rw [hheld]
        exact Multiset.mem_cons_self id _
    rw [h.stage_turn hturn hstage, stageIn, if_neg]
    show id ∉ (heldSlots 0 m.log).erase id
    rwa [hheld, Multiset.erase_cons_head]
  · apply h.stage_quiet (by simp [slotTurn, Ne.symm hid]) (Multiset.mem_erase_of_ne hid)
    rw [hused, or_iff_right hid]

/-- A slot is granted to a job that holds none. -/
theorem CleansUp.stages_tryAllocate {cap : Dim → Option UInt32} {m : SchedMachine}
    (hs : Sequential w m) (hb : WithinBudget w cap m) (h : CleansUp w m) {id' : JobId}
    (hallows : (viewOf w 0 m.log).Allows (.tryAllocate id')) {used' : List JobId} {id : JobId}
    (hused : id ∈ used' ↔ id ∈ (viewOf w 0 m.log).focus.used) :
    slotStage id (m.step (handle w) 0 (.tryAllocate id')).log =
      some (stageIn (heldSlots 0 (m.step (handle w) 0 (.tryAllocate id')).log) used' id) := by
  have hfocus := hallows.1
  cases hanswer : (m.state.budget.tryAllocate id').1 with
  | error e =>
    refine h.stage_quiet ?_ ?_ hused
    · simp [slotTurn, hanswer, Except.isOk, Except.toBool]
    · rw [slotsAfter, hanswer]
  | ok u =>
    have hheld' : heldSlots 0 (m.step (handle w) 0 (.tryAllocate id')).log =
        id' ::ₘ heldSlots 0 m.log := by
      show slotsAfter _ _ _ = _
      rw [slotsAfter, hanswer]
    by_cases hid : id = id'
    · subst hid
      -- the job is Ready, and slots are held for Running jobs only
      have hnotHeld : id ∉ heldSlots 0 m.log := by
        have hagrees := hs.agrees
        rw [hfocus] at hagrees
        rw [hb.held, hfocus, show (Focus.looked id .ready).owed = 0 from rfl, Multiset.zero_add,
          InProcessScheduler.mem_running, hagrees (.inl True.intro)]
        simp
      have hunused : id ∉ used' := by
        rw [hused, hfocus]
        exact List.not_mem_nil
      have hturn : slotTurn id ⟨0, .tryAllocate id, m.state⟩ = some (.free, .taken) := by
        simp [slotTurn, hanswer, Except.isOk, Except.toBool]
      rw [h.stage_turn hturn (by simp [stageIn, hnotHeld]), hheld', stageIn,
        if_pos (Multiset.mem_cons_self id _), if_neg hunused]
    · refine h.stage_quiet (by simp [slotTurn, Ne.symm hid]) ?_ hused
      rw [slotsAfter, hanswer]
      exact Multiset.mem_cons.trans (or_iff_right hid)

theorem CleansUp.stages_step {cap : Dim → Option UInt32} {m : SchedMachine} (hs : Sequential w m)
    (hb : WithinBudget w cap m) (h : CleansUp w m) {c : Cmd}
    (hallows : (viewOf w 0 m.log).Allows c) (hord : c.ordinary = true) (id : JobId) :
    slotStage id (m.step (handle w) 0 c).log = some (stageIn (heldSlots 0 (m.step (handle w) 0 c).log)
      ((viewOf w 0 m.log).next c (handle w c m.state).1).focus.used id) := by
  have hlands := View.Sound.lands hs hallows
  by_cases hspawn : ∃ id' job timeout, c = .spawn id' job timeout
  · obtain ⟨id', job, timeout, rfl⟩ := hspawn
    exact h.stages_spawn hs hb hallows id
  · by_cases hrelease : ∃ id', c = .release id'
    · obtain ⟨id', rfl⟩ := hrelease
      exact h.stages_release hs hb hallows id
    · have hused := View.mem_used_next (w := w) hallows hlands h.complete
        (fun id job timeout hc => hspawn ⟨id, job, timeout, hc⟩) (fun id hc => hrelease ⟨id, hc⟩) id
      cases c with
      | spawn id' job timeout => exact absurd ⟨id', job, timeout, rfl⟩ hspawn
      | release id' => exact absurd ⟨id', rfl⟩ hrelease
      | installBudget budget => simp [Cmd.ordinary] at hord
      | tryAllocate id' => exact h.stages_tryAllocate hs hb hallows hused
      | _ => exact h.stage_quiet rfl Iff.rfl hused

theorem CleansUp.step {cap : Dim → Option UInt32} {m : SchedMachine} (hs : Sequential w m)
    (hb : WithinBudget w cap m) (h : CleansUp w m) {c : Cmd}
    (hallows : (viewOf w 0 m.log).Allows c) (hord : c.ordinary = true)
    (hpanic : panics w ⟨0, c, m.state⟩ = false) (hlate : lateGrant w ⟨0, c, m.state⟩ m.log = false) :
    CleansUp w (m.step (handle w) 0 c) := by
  have hlands := View.Sound.lands hs hallows
  refine ⟨?_, ?_, ?_, ?_⟩ <;> rw [viewOf_step_self]
  · exact h.complete.next hallows hpanic
  · intro id hgranted
    obtain ⟨rfl, hslack⟩ := View.granted_next hallows hgranted
    rw [View.pass_next (by simp) (by simp) (by simp)]
    simpa [lateGrant, hslack] using hlate
  · intro id hafter
    by_cases hbefore : m.state.phase id = .running
    · exact View.expects_next hallows hlands h.complete hbefore hafter (h.expects id hbefore)
    · obtain ⟨hgranted, rfl, hseeded⟩ :=
        View.granted_of_started hallows (Cmd.ne_restoreState hord) hbefore hafter
      have hfinal := h.early id hgranted
      refine .inr ?_
      rw [View.pass_next (by simp) (by simp) (by simp)]
      exact ⟨hfinal, hseeded hfinal⟩
  · exact h.stages_step hs hb hallows hord

/-! ## The result -/

/-- Nothing panics, and PASS 3 finds no slot for a Ready job. -/
def Tidy (w : World) (log : List SchedEvent) : Prop :=
  Meets (fun e past => panics w e = false ∧ lateGrant w e past = false) log

instance (w : World) (log : List SchedEvent) : Decidable (Tidy w log) :=
  inferInstanceAs (Decidable (Meets _ log))

theorem CleansUp.install (b : BudgetTree) (tool : String) :
    CleansUp w ((InProcessScheduler.new tool).start.step (handle w) 0 (.installBudget b)) := by
  have hview : viewOf w 0 ((InProcessScheduler.new tool).start.step (handle w) 0
      (.installBudget b)).log = ⟨View.start.pass, .rest⟩ := by
    rw [viewOf_step_self]
    rfl
  refine ⟨?_, ?_, ?_, ?_⟩ <;> rw [hview]
  · simp [Focus.Complete, Focus.spawned]
  · simp
  · exact fun id hid => JobPhase.noConfusion hid
  · exact fun id => rfl

/-- Between two calls nothing is held. -/
theorem heldSlots_eq_zero {cap : Dim → Option UInt32} {m : SchedMachine} (hb : WithinBudget w cap m)
    (h : CleansUp w m) (hrest : Resting w m) : heldSlots 0 m.log = 0 := by
  rw [hb.held_of_resting hrest]
  refine Multiset.eq_zero_of_forall_notMem fun id hid => ?_
  exact View.not_expects_of_resting hrest id (h.expects id (InProcessScheduler.mem_running.mp hid))

/-- **PASS 3 only cleans up, as long as it finds no slot for a Ready job.** After a budget with free
slots is installed in a fresh scheduler, and after any calls that neither replace it nor restore a
snapshot, if nothing panicked and PASS 3 took no slot: no job is Running, no slot is held, and each slot
that was taken was used for one execution and then released. -/
theorem cleanup_leaves_nothing_running (w : World) (tool : String) {b : BudgetTree} (hidle : b.Idle)
    {calls : List Call} (hcalls : ∀ call ∈ calls, call.ordinary = true)
    (htidy : Tidy w (runCalls w (.installBudget b :: calls) (InProcessScheduler.new tool).start).log) :
    let m := runCalls w (.installBudget b :: calls) (InProcessScheduler.new tool).start
    (∀ id, m.state.phase id ≠ .running) ∧
    (∀ d, (b.cap d).isSome ∨ m.state.state.phases.size < 4294967296 → m.state.budget.counter d = 0) ∧
    heldSlots 0 m.log = 0 ∧ ∀ id, slotStage id m.log = some .free := by
  intro m
  have hstart := (Sequential.start w (InProcessScheduler.new tool)).step
    (c := .installBudget b) ⟨rfl, rfl⟩
  obtain ⟨⟨hb, h⟩, -, hrest⟩ := runCalls_induct
    (J := fun m => WithinBudget w b.cap m ∧ (Tidy w m.log → CleansUp w m))
    (fun m c hs hm hallows hc => by
      have hord := Cmd.ordinary_of_permitted hc
      refine ⟨hm.1.step hs hallows hord, fun htidy => ?_⟩
      obtain ⟨⟨hpanic, hlate⟩, hpast⟩ := meets_cons.mp htidy
      exact (hm.2 hpast).step hs hm.1 hallows hord hpanic hlate)
    hcalls hstart ⟨rfl, rfl⟩ ⟨WithinBudget.install hidle tool, fun _ => CleansUp.install b tool⟩
  have hb : WithinBudget w b.cap m := hb
  have hm : CleansUp w m := h htidy
  have hheld : heldSlots 0 m.log = 0 := heldSlots_eq_zero hb hm hrest
  refine ⟨fun id hid => ?_, fun d hd => ?_, hheld, fun id => ?_⟩
  · exact View.not_expects_of_resting hrest id (hm.expects id hid)
  · have hholds := hb.books.holds d (hb.caps ▸ hd)
    rw [hheld] at hholds
    exact UInt32.toNat_inj.mp hholds
  · rw [hm.stages id, hheld]
    rfl

/-- With one slot for two jobs, the tick returns and leaves `b` Running, though nothing panicked. -/
theorem cleanup_starts_a_job :
    let m := runCalls Sample.world [.installBudget Sample.oneSlot,
      .registerJob (Sample.job "a" .ok), .registerJob (Sample.job "b" .ok)]
      (InProcessScheduler.new "t").start
    let result := (tick Sample.pair).exec (handle Sample.world) 0 m
    result.1.isOk = true ∧ (∀ e ∈ result.2.log, panics Sample.world e = false) ∧
    result.2.state.phase (Sample.jobId "b") = .running ∧ result.2.state.budget.runningGlobal = 1 := by
  decide +kernel

/-- With two slots. -/
theorem cleanup_leaves_nothing_running_twoSlots :
    let m := runCalls Sample.world (.installBudget { BudgetTree.new with global := some ⟨2⟩ } ::
      Sample.onceOn Sample.pair .ok .err) (InProcessScheduler.new "t").start
    m.state.phase (Sample.jobId "b") ≠ .running ∧ slotStage (Sample.jobId "b") m.log = some .free := by
  have hidle : ({ BudgetTree.new with global := some ⟨2⟩ } : BudgetTree).Idle := fun d => by
    cases d <;> rfl
  have hcalls : ∀ call ∈ Sample.onceOn Sample.pair .ok .err, call.ordinary = true := by decide
  have hclean := cleanup_leaves_nothing_running Sample.world "t" hidle hcalls (by decide +kernel)
  exact ⟨hclean.1 _, hclean.2.2.2 _⟩

end Shigoto
