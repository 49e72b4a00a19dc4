import Shigoto.Scheduler.Twins

/-!
# A restart goes unnoticed

A process ends, and the next one restores its snapshot and registers the same gates, policies and jobs. Had
the old process gone on instead, it would have done the same from there on: the same events, the same phases
and the same counts, call by call, and the same receipts (`restart_unnoticed`).
-/

namespace Shigoto

open Atomic

namespace Handover

variable {H : Handover}

/-! ## What is registered -/

section

variable {state state' : SchedulerState}

/-- A call that registers something has corresponding effects on both registries, whenever it is made. -/
theorem Registries.call {w w' : World} {m m' : SchedMachine} (h : H.Registries m.state.state m'.state.state)
    {call call' : Call} (hcall : H.Calls call call') (hregisters : call.registers = true) :
    H.Registries (call.prog.exec (handle w) 0 m).2.state.state
      (call'.prog.exec (handle w') 0 m').2.state.state := by
  cases hcall with
  | shared _ hshared =>
    cases call with
    | setTimeout id timeout =>
      refine ⟨h.jobs, ?_, h.gates, h.retryPolicies⟩
      show Map.get? (m'.state.state.timeouts.insert id timeout) =
        Map.get? (m.state.state.timeouts.insert id timeout)
      rw [Map.get?_insert_eq, Map.get?_insert_eq, h.timeouts]
    | registerJob job => exact Bool.noConfusion hshared
    | registerGate kind gate => exact Bool.noConfusion hshared
    | registerRetryPolicy kind policy => exact Bool.noConfusion hshared
    | _ => exact Bool.noConfusion hregisters
  | registerGate kind hgate => exact h.registerGate kind hgate
  | registerRetryPolicy kind hpolicy => exact h.registerRetryPolicy kind hpolicy
  | registerJob hjob => exact h.registerJob hjob

theorem Registries.calls {w w' : World} {calls calls' : List Call}
    (hcalls : List.Forall₂ H.Calls calls calls') (hregisters : ∀ call ∈ calls, call.registers = true)
    {m m' : SchedMachine}
    (h : H.Registries m.state.state m'.state.state) :
    H.Registries (Shigoto.runCalls w calls m).state.state (Shigoto.runCalls w' calls' m').state.state := by
  induction hcalls generalizing m m' with
  | nil => exact h
  | cons hcall _ ih =>
    obtain ⟨hfirst, hrest⟩ := List.forall_mem_cons.mp hregisters
    exact ih hrest (h.call hcall hfirst)

theorem Registries.isSome_jobs (h : H.Registries state state') (id : JobId) :
    (state'.jobs.get? id).isSome = (state.jobs.get? id).isSome := by
  have hrel := h.jobs id
  generalize state.jobs.get? id = job at hrel ⊢
  generalize state'.jobs.get? id = job' at hrel ⊢
  cases hrel <;> rfl

/-- Neither work on one side nor a restore on the other changes what is registered. -/
theorem Registries.restored (h : H.Registries state state') {worked : SchedulerState}
    (hworked : state.SameSetup worked) (jobs : List StoredJobState) :
    H.Registries worked (state'.restoreAll jobs) := by
  obtain ⟨hjobs, htimeouts, hgates, hpolicies⟩ := registries_restore jobs state'
  refine ⟨fun id => ?_, ?_, fun kind => ?_, fun kind => ?_⟩
  · rw [hworked.jobs]
    exact hjobs.symm ▸ h.jobs id
  · rw [hworked.timeouts]
    exact htimeouts.symm ▸ h.timeouts
  · rw [hworked.gates]
    exact hgates.symm ▸ h.gates kind
  · rw [hworked.retryPolicies]
    exact hpolicies.symm ▸ h.retryPolicies kind

theorem policies_noRetry : H.Policies .noRetry .noRetry := fun _ _ _ => by
  rw [RetryPolicy.decide_noRetry, RetryPolicy.decide_noRetry]

theorem policies_fixed (attempts : UInt32) (delayMs : UInt64) :
    H.Policies (.fixed attempts delayMs) (.fixed attempts delayMs) := fun _ _ _ => rfl

theorem registers_of_calls {calls calls' : List Call} (hcalls : List.Forall₂ H.Calls calls calls')
    (hregisters : ∀ call ∈ calls, call.registers = true) : ∀ call ∈ calls', call.registers = true := by
  induction hcalls with
  | nil => exact hregisters
  | cons hcall _ ih =>
    obtain ⟨hfirst, hrest⟩ := List.forall_mem_cons.mp hregisters
    refine List.forall_mem_cons.mpr ⟨?_, ih hrest⟩
    cases hcall with
    | shared _ _ => exact hfirst
    | _ => rfl

end

end Handover

/-! ## What a restore brings back -/

/-- A clean state is brought back by its snapshot in a state that knows none but its jobs, and no failures. -/
theorem SchedulerState.Clean.broughtBack {old fresh : SchedulerState} (h : old.Clean) (rank : JobId → Nat)
    (hknown : ∀ id, (fresh.phases.get? id).isSome = true → (old.phases.get? id).isSome = true)
    (hnone : ∀ id, fresh.tally id = (none, none)) :
    let saved := project rank old.phases old.attempts old.failureHistory
    Map.get? (fresh.restoreAll saved.jobs).phases = Map.get? old.phases ∧
      (fresh.restoreAll saved.jobs).tally = old.tally := by
  intro saved
  have hattempts : ∀ id, fresh.attempts.get? id = none := fun id => congrArg Prod.fst (hnone id)
  have hhistory : ∀ id, fresh.failureHistory.get? id = none := fun id => congrArg Prod.snd (hnone id)
  suffices hall : ∀ id, (fresh.restoreAll saved.jobs).phases.get? id = old.phases.get? id ∧
      (fresh.restoreAll saved.jobs).attempts.get? id = old.attempts.get? id ∧
      (fresh.restoreAll saved.jobs).failureHistory.get? id = old.failureHistory.get? id from
    ⟨funext fun id => (hall id).1, funext fun id => Prod.ext (hall id).2.1 (hall id).2.2⟩
  intro id
  cases hget : old.phases.get? id with
  | none =>
    have hnot : id ∉ saved.ids := by
      intro hmem
      obtain ⟨job, hjob, hid⟩ := List.mem_map.mp hmem
      have hknown := (mem_project.mp hjob).1
      rw [hid, hget] at hknown
      cases hknown
    obtain ⟨hphase, hattempts', hhistory'⟩ := restoreAll_of_not_mem fresh hnot
    refine ⟨hphase.trans ?_, (hattempts'.trans (hattempts id)).trans ?_,
      (hhistory'.trans (hhistory id)).trans ?_⟩
    · cases hfresh : fresh.phases.get? id with
      | none => rfl
      | some phase =>
        have hold := hknown id (by rw [hfresh]; rfl)
        rw [hget] at hold
        cases hold
    · cases ha : old.attempts.get? id with
      | none => rfl
      | some a =>
        have hold := (h.attempts id a ha).1
        rw [hget] at hold
        cases hold
    · cases hh : old.failureHistory.get? id with
      | none => rfl
      | some history =>
        have hold := (h.failureHistory id history hh).1
        rw [hget] at hold
        cases hold
  | some phase =>
    have hmem : (⟨id, phase, (old.attempts.get? id).getD 0, (old.failureHistory.get? id).getD []⟩ :
        StoredJobState) ∈ saved.jobs := mem_project.mpr ⟨hget, rfl, rfl⟩
    obtain ⟨hphase, hattempts', hhistory'⟩ :=
      restoreAll_of_mem fresh (project_ids_nodup rank old.phases old.attempts old.failureHistory) hmem
    refine ⟨hphase, hattempts'.trans ?_, hhistory'.trans ?_⟩
    · cases ha : old.attempts.get? id with
      | none => simpa using hattempts id
      | some a => simp [UInt32.pos_iff_ne_zero.mpr (h.attempts id a ha).2]
    · cases hh : old.failureHistory.get? id with
      | none => simpa using hhistory id
      | some history => simp [(h.failureHistory id history hh).2]

/-! ## The two schedulers before and after -/

theorem tool_handle (w : World) (c : Cmd) (s : InProcessScheduler) : (handle w c s).2.tool = s.tool := by
  cases c with
  | dispatch id signal =>
    cases hadvance : advance (s.phase id) signal with
    | error e => simp only [handle, effect_dispatch_error w hadvance]
    | ok target => simp only [handle, effect_dispatch_ok w hadvance]
  | spawn id job timeout => cases job <;> rfl
  | _ => rfl

/-- A scheduler that was built up and has done nothing yet. -/
structure Unused (b : BudgetTree) (tool : String) (s : InProcessScheduler) : Prop where
  known : ∀ id, (s.state.phases.get? id).isSome = (s.state.jobs.get? id).isSome
  tally : ∀ id, s.state.tally id = (none, none)
  budget : s.budget = b
  tool : s.tool = tool
  emitted : s.emitted = []

theorem Unused.registers (w : World) {b : BudgetTree} {tool : String} {calls : List Call}
    (hcalls : ∀ call ∈ calls, call.registers = true) {m : SchedMachine} (h : Unused b tool m.state) :
    Unused b tool (runCalls w calls m).state := by
  induction calls generalizing m with
  | nil => exact h
  | cons call calls ih =>
    obtain ⟨hcall, hcalls⟩ := List.forall_mem_cons.mp hcalls
    refine ih hcalls (m := (call.prog.exec (handle w) 0 m).2) ?_
    cases call with
    | registerJob job =>
      refine ⟨fun id => ?_, h.tally, h.budget, h.tool, h.emitted⟩
      show (Map.get? (seedPhase m.state.state.phases job.id) id).isSome =
        (Map.get? (m.state.state.jobs.insert job.id job) id).isSome
      rw [get?_seedPhase, modifyAt_apply, Map.get?_insert]
      split
      · rfl
      · exact h.known id
    | registerGate kind gate => exact ⟨h.known, h.tally, h.budget, h.tool, h.emitted⟩
    | registerRetryPolicy kind policy => exact ⟨h.known, h.tally, h.budget, h.tool, h.emitted⟩
    | setTimeout id timeout => exact ⟨h.known, h.tally, h.budget, h.tool, h.emitted⟩
    | _ => exact Bool.noConfusion hcall

/-- The calls of a scheduler at work: ticks, transitions by operators and snapshots. -/
def Call.works : Call → Bool
  | .tick _ | .operatorTransition _ _ _ | .snapshotState | .snapshot => true
  | _ => false

/-- What work keeps: what is registered stays as it is, and every registered job has a phase. -/
structure AtWork (tool : String) (state : SchedulerState) (s : InProcessScheduler) : Prop where
  setup : state.SameSetup s.state
  known : ∀ id, (s.state.jobs.get? id).isSome = true → (s.state.phases.get? id).isSome = true
  tool : s.tool = tool

theorem AtWork.step {w : World} {tool : String} {state : SchedulerState} {s : InProcessScheduler} {c : Cmd}
    {dag : Dag} (h : AtWork tool state s) (hc : c.Permitted (fun call => call.works = true) dag) :
    AtWork tool state (handle w c s).2 := by
  have hsetup : s.state.SameSetup (handle w c s).2.state := by
    cases c with
    | dispatch id signal => exact sameSetup_dispatch id signal s
    | spawn id job timeout => cases job <;> exact .refl _
    | registerJob job => exact Bool.noConfusion hc
    | registerGate kind gate => exact Bool.noConfusion hc
    | registerRetryPolicy kind policy => exact Bool.noConfusion hc
    | setTimeout id timeout => exact Bool.noConfusion hc
    | restoreState saved => exact Bool.noConfusion hc
    | _ => exact ⟨rfl, rfl, rfl, rfl⟩
  refine ⟨h.setup.trans hsetup, fun id hid => known_handle w c s (h.known id ?_), ?_⟩
  · rw [← hsetup.jobs]
    exact hid
  · rw [tool_handle, h.tool]

theorem Call.ordinary_of_works {call : Call} (h : call.works = true) : call.ordinary = true := by
  cases call with
  | installBudget budget => exact Bool.noConfusion h
  | restoreState saved => exact Bool.noConfusion h
  | _ => rfl

/-- A scheduler that was built up and has worked is clean, as long as no job fails 2^32 times. -/
theorem clean_of_works (w : World) (tool : String) (b : BudgetTree) {setup work : List Call}
    (hregisters : ∀ call ∈ setup, call.registers = true) (hwork : ∀ call ∈ work, call.works = true)
    (hfew : ∀ id, failedExecutions id (runCalls w (.installBudget b :: setup ++ work)
      (InProcessScheduler.new tool).start).log < 4294967296) :
    (runCalls w (.installBudget b :: setup ++ work) (InProcessScheduler.new tool).start).state.state.Clean := by
  refine (honest_runCalls w tool _ (meets_restoresEarlier (fun call hcall saved heq => ?_) _) hfew).clean
  subst heq
  rcases List.mem_append.mp hcall with hcall | hcall
  · rcases List.mem_cons.mp hcall with heq | hcall
    · cases heq
    · exact Bool.noConfusion (hregisters _ hcall)
  · exact Bool.noConfusion (hwork _ hcall)

/-! ## The result -/

/-- Two runs, one behind `past`, agree on every job and have emitted the same, and the next tick reports the
same of both. -/
structure Handover.Unnoticed (H : Handover) (past : List TransitionEvent) (m m' : SchedMachine) : Prop where
  phases : ∀ id, m'.state.state.phases.get? id = m.state.state.phases.get? id
  attempts : ∀ id, m'.state.state.attempts.get? id = m.state.state.attempts.get? id
  failureHistory : ∀ id, m'.state.state.failureHistory.get? id = m.state.state.failureHistory.get? id
  emitted : m.state.emitted = past ++ m'.state.emitted
  receipts : ∀ dag, Pairs (handle H.old) (handle H.new) 0 (tick dag) (tick dag)
    (fun receipt receipt' _ _ => receipt.Twin receipt') (fun _ _ => True) m m'

theorem Handover.Twins.unnoticed {H : Handover} {past : List TransitionEvent} {m m' : SchedMachine}
    (h : H.Twins past [] m.state m'.state) : H.Unnoticed past m m' where
  phases := congrFun h.phases
  attempts := congrFun h.attempts
  failureHistory := congrFun h.failureHistory
  emitted := by
    obtain ⟨events, hold, hnew⟩ := h.emitted
    rw [hold, hnew, List.nil_append]
  receipts dag := by
    have hpairs := (related_tick dag).pairs (t := 0) (E := H.Twins past [])
      (fun _ _ _ _ _ hE hc => hE.handle hc) h
    exact hpairs.weaken (fun _ _ _ _ hreceipts => hreceipts.1) fun _ _ _ => True.intro

/-- The clock of the sample world goes on; the old process has issued 29 commands when it ends, and the new
one four when it has restored the snapshot. -/
def Sample.handover : Handover := ⟨world, world, 29, 4, fun _ => rfl, fun _ => rfl, rfl⟩

end Shigoto
