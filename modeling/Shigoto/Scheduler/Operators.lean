import Shigoto.Scheduler.Journal

/-!
# Operators next to a running tick

`operator_transition` reads a phase, writes a phase and emits an event, each in a critical section of
its own. Nothing rechecks the phase before the write, and nothing keeps the event in its place. So the
operators of a run are atomic steps of it exactly when each write finds the phase that was read, and the
tick sends no signal to the job between the write and the event.
-/

namespace Shigoto

open Atomic

variable {w : World} {n : Nat}

/-! ## Events since a moment -/

/-- The events of `id` emitted since `s`. -/
def eventsSince (s m : InProcessScheduler) (id : JobId) : List TransitionEvent :=
  (m.emitted.drop s.emitted.length).filter fun event => event.jobId = id

theorem eventsSince_snoc {s m m' : InProcessScheduler} {event : TransitionEvent}
    (hlonger : s.emitted <+: m.emitted) (h : m'.emitted = m.emitted ++ [event]) (id : JobId) :
    eventsSince s m' id =
      if event.jobId = id then eventsSince s m id ++ [event] else eventsSince s m id := by
  rw [eventsSince, h, List.drop_append_of_le_length hlonger.length_le, List.filter_append]
  by_cases hid : event.jobId = id
  · rw [if_pos hid, List.filter_singleton, decide_eq_true hid]
    rfl
  · rw [if_neg hid, List.filter_singleton, decide_eq_false hid]
    exact List.append_nil _

theorem eventsSince_grows (s : InProcessScheduler) {m m' : InProcessScheduler}
    (h : m.emitted <+: m'.emitted) (id : JobId) : eventsSince s m id <+: eventsSince s m' id :=
  (h.drop _).filter _

/-! ## Interference -/

/-- A write to the phase of a job, and the signal it stands for. -/
def writes (e : SchedEvent) : Option (JobId × Signal) :=
  match e.cmd with
  | .dispatch id signal => some (id, signal)
  | .overwrite id phase => some (id, .operatorTransition phase)
  | _ => none

/-- Since the operator read its phase, the job was left in another one. -/
def stale (w : World) (e : SchedEvent) (past : List SchedEvent) : Bool :=
  match e.cmd, (viewOf w e.tid past).focus with
  | .overwrite id _, .looked _ source => decide (e.pre.phase id ≠ source)
  | _, _ => false

/-- The caller has written the phase of `id` and not emitted the event yet. -/
def Focus.awaitsEvent (id : JobId) : Focus → Bool
  | .moved id' _ _ => decide (id' = id)
  | _ => false

theorem Focus.awaitsEvent_iff {focus : Focus} {id : JobId} :
    focus.awaitsEvent id = true ↔ ∃ source target, focus = .moved id source target := by
  cases focus <;> simp [awaitsEvent]

/-- A signal is sent to a job between an operator's write and its event. -/
def overtakes (w : World) (n : Nat) (e : SchedEvent) (past : List SchedEvent) : Bool :=
  match e.cmd with
  | .dispatch id _ => (List.range n).any fun t => (viewOf w t past).focus.awaitsEvent id
  | _ => false

/-- The operators are not interfered with. -/
def Undisturbed (w : World) (n : Nat) (log : List SchedEvent) : Prop :=
  Meets (fun e past => stale w e past = false ∧ overtakes w n e past = false) log

instance (w : World) (n : Nat) (log : List SchedEvent) : Decidable (Undisturbed w n log) :=
  inferInstanceAs (Decidable (Meets _ log))

/-! ## The invariant -/

/-- The events of `id` lead up to the present, but for one that is still to be emitted. -/
structure Chained (w : World) (n : Nat) (s : InProcessScheduler) (m : SchedMachine) (id : JobId) :
    Prop where
  present : (∀ t < n, (viewOf w t m.log).focus.awaitsEvent id = false) →
    Leads (s.phase id) (eventsSince s m.state id) (m.state.phase id)
  awaited : ∀ t < n, ∀ source target, (viewOf w t m.log).focus = .moved id source target →
    Leads (s.phase id) (eventsSince s m.state id) source ∧ m.state.phase id = target ∧
      source.steady = false ∧ target.steady = true ∧
      ∀ u < n, u ≠ t → (viewOf w u m.log).focus.awaitsEvent id = false

/-- Every write follows the table. -/
def FollowsTable (w : World) (log : List SchedEvent) : Prop :=
  ∀ e ∈ log, ∀ id signal, writes e = some (id, signal) →
    advance (e.pre.phase id) signal = .ok ((e.post (handle w)).phase id)

/-- What an interleaving of a tick, thread 0, with operators keeps; `s` is where it began. -/
structure Linear (w : World) (n : Nat) (s : InProcessScheduler) (m : SchedMachine) : Prop where
  consistent : (viewOf w 0 m.log).Consistent False m.state
  tick : ∀ id source target, (viewOf w 0 m.log).focus ≠ .moved id source target
  table : FollowsTable w m.log
  leaves : ∀ e ∈ m.log, ∀ id, e.pre.phase id = .running → (e.post (handle w)).phase id ≠ .running →
    e.tid = 0 ∧ (e.cmd = .dispatch id .executionSucceeded ∨ e.cmd = .dispatch id .executionFailed)
  longer : s.emitted <+: m.state.emitted
  chained : ∀ id, Chained w n s m id

theorem Chained.not_awaited {s : InProcessScheduler} {m : SchedMachine} {id : JobId}
    (h : Chained w n s m id) (hphase : (m.state.phase id).steady = false) :
    ∀ t < n, (viewOf w t m.log).focus.awaitsEvent id = false := by
  intro t ht
  by_contra hawaits
  obtain ⟨source, target, hmoved⟩ := Focus.awaitsEvent_iff.mp (Bool.eq_true_of_not_eq_false hawaits)
  obtain ⟨-, rfl, -, hsteady, -⟩ := h.awaited t ht source target hmoved
  rw [hphase] at hsteady
  exact Bool.noConfusion hsteady

/-- A step that does not concern `id`. -/
theorem Chained.frame {s : InProcessScheduler} {m m' : SchedMachine} {id : JobId}
    (h : Chained w n s m id) (hphase : m'.state.phase id = m.state.phase id)
    (hevents : eventsSince s m'.state id = eventsSince s m.state id)
    (hmoved : ∀ t source target, (viewOf w t m'.log).focus = .moved id source target ↔
      (viewOf w t m.log).focus = .moved id source target) : Chained w n s m' id := by
  have hawaits : ∀ t, (viewOf w t m'.log).focus.awaitsEvent id =
      (viewOf w t m.log).focus.awaitsEvent id := by
    intro t
    rw [Bool.eq_iff_iff, Focus.awaitsEvent_iff, Focus.awaitsEvent_iff]
    simp only [hmoved]
  refine ⟨fun hnone => ?_, fun t ht source target hfocus => ?_⟩
  · rw [hevents, hphase]
    exact h.present fun t ht => (hawaits t).symm.trans (hnone t ht)
  · rw [hevents, hphase]
    obtain ⟨hleads, htarget, hsource, hsteady, halone⟩ :=
      h.awaited t ht source target ((hmoved t source target).mp hfocus)
    exact ⟨hleads, htarget, hsource, hsteady, fun u hu hne => (hawaits u).trans (halone u hu hne)⟩

/-! ## What a tick knows -/

/-- What a tick knows depends on steady phases only. -/
theorem View.Consistent.of_steady {v : View} {s s' : InProcessScheduler} (hs : v.Consistent False s)
    (hkeep : ∀ id p, p.steady = true → s.phase id = p → s'.phase id = p) : v.Consistent False s' := by
  obtain ⟨pass, focus⟩ := v
  refine ⟨?_, fun id' hid' => hkeep id' _ rfl (hs.running id' hid'), hs.nodup⟩
  have hagrees := hs.agrees
  cases focus with
  | looked id' p =>
    rintro (hfalse | hp)
    · exact hfalse.elim
    · exact hkeep id' p hp (hagrees (.inr hp))
  | consulting id' p ctx ahead outcomes =>
    obtain ⟨hid', hp, hjob, hdag, -⟩ := hagrees
    refine ⟨hkeep id' p ?_ hid', hp, hjob, hdag, False.elim⟩
    rcases hp with rfl | rfl <;> rfl
  | clocked id' untilMs nowMs => exact hkeep id' _ rfl hagrees
  | granted id' => exact hkeep id' _ rfl hagrees
  | judging id' policy attempt history =>
    obtain ⟨k, hk⟩ := hagrees
    exact ⟨k, hkeep id' _ rfl hk⟩
  | delayed id' after =>
    obtain ⟨k, hk⟩ := hagrees
    exact ⟨k, hkeep id' _ rfl hk⟩
  | planned id' outcome =>
    obtain ⟨k, hk⟩ := hagrees
    exact ⟨k, hkeep id' _ rfl hk⟩
  | succeeded id' results => exact hkeep id' _ rfl hagrees
  | releasing id' results => exact hagrees.imp (hkeep id' _ rfl) (hkeep id' _ rfl)
  | moved id' source target => exact False.elim
  | refused => exact hagrees
  | _ => exact True.intro

/-- An operator's write leaves the steady phases of all jobs alone. -/
theorem View.Consistent.overwritten {v : View} {s s' : InProcessScheduler} (hs : v.Consistent False s)
    {id : JobId} {phase : JobPhase} (hsource : (s.phase id).steady = false)
    (hphase : ∀ id', s'.phase id' = if id' = id then phase else s.phase id') :
    v.Consistent False s' := by
  apply hs.of_steady
  intro id' p hp hid'
  have hne : id' ≠ id := by
    rintro rfl
    rw [hid', hp] at hsource
    exact Bool.noConfusion hsource
  rw [hphase, if_neg hne, hid']

/-! ## One step -/

/-- What the calls of thread `t` are: thread 0 ticks, the others are operators. -/
def role : Nat → Call → Prop
  | 0, call => ∃ dag, call = .tick dag
  | _ + 1, call => ∃ id target reason, call = .operatorTransition id target reason

/-- Only the tick sends signals. -/
theorem eq_zero_of_dispatch {u : Nat} {dag : Dag} {id : JobId} {signal : Signal}
    (h : Cmd.Permitted (role u) dag (.dispatch id signal)) : u = 0 := by
  cases u with
  | zero => rfl
  | succ u =>
    obtain ⟨id', target, reason, hcall⟩ := h
    exact Call.noConfusion hcall

theorem moved_step {m : SchedMachine} {u : Nat} {c : Cmd} (hallows : (viewOf w u m.log).Allows c)
    (hoverwrite : ∀ id phase, c ≠ .overwrite id phase)
    (hemit : ∀ time id source target reason, c ≠ .emit time id source target reason)
    (t : Nat) (id : JobId) (source target : JobPhase) :
    (viewOf w t (m.step (handle w) u c).log).focus = .moved id source target ↔
      (viewOf w t m.log).focus = .moved id source target := by
  rw [viewOf_step]
  split
  · next htu => rw [htu, View.moved_next hallows hoverwrite hemit]
  · exact Iff.rfl

section

variable {s : InProcessScheduler} {m : SchedMachine} {u : Nat} (h : Linear w n s m)

include h

/-- A command that changes no phase and emits nothing. -/
theorem Linear.step_quiet {c : Cmd} (hallows : (viewOf w u m.log).Allows c) (hmoves : c.moves = false)
    (hemits : c.emits = false) : Linear w n s (m.step (handle w) u c) := by
  have hphase : ∀ id, (handle w c m.state).2.phase id = m.state.phase id := fun id =>
    phase_of_not_moves w hmoves m.state id
  have hemitted : (handle w c m.state).2.emitted = m.state.emitted :=
    emitted_of_not_emits w hemits m.state
  have hmoved := moved_step hallows
    (by rintro id phase rfl; simp [Cmd.moves] at hmoves)
    (by rintro time id source target reason rfl; simp [Cmd.emits] at hemits)
  refine
    { consistent := ?_
      tick := fun id source target hfocus =>
        h.tick id source target ((hmoved 0 id source target).mp hfocus)
      table := List.forall_mem_cons.mpr ⟨fun id signal hwrites => ?_, h.table⟩
      leaves := List.forall_mem_cons.mpr
        ⟨fun id hbefore hafter => absurd ((hphase id).trans hbefore) hafter, h.leaves⟩
      longer := hemitted.symm ▸ h.longer
      chained := fun id => (h.chained id).frame (hphase id) ?_ fun t => hmoved t id }
  · rw [viewOf_step]
    split
    · next h0 =>
      subst h0
      apply View.Consistent.next w h.consistent hallows
      cases c with
      | dispatch id signal => simp [Cmd.moves] at hmoves
      | overwrite id phase => simp [Cmd.moves] at hmoves
      | _ => exact True.intro
    · exact h.consistent.of_steady fun id p _ hid => (hphase id).trans hid
  · cases c with
    | dispatch id signal => simp [Cmd.moves] at hmoves
    | overwrite id phase => simp [Cmd.moves] at hmoves
    | _ => exact absurd hwrites (by simp [writes])
  · rw [eventsSince, show (m.step (handle w) u c).state.emitted = _ from hemitted]
    rfl

/-- A signal of the tick. -/
theorem Linear.step_dispatch {id : JobId} {signal : Signal}
    (hallows : (viewOf w 0 m.log).Allows (.dispatch id signal))
    (hclear : ∀ t < n, (viewOf w t m.log).focus.awaitsEvent id = false) :
    Linear w n s (m.step (handle w) 0 (.dispatch id signal)) := by
  obtain ⟨target, hadvance⟩ := h.consistent.advance hallows
  have hphase : ∀ id', (m.step (handle w) 0 (.dispatch id signal)).state.phase id' =
      if id' = id then target else m.state.phase id' := phase_dispatch_ok w hadvance
  have hevents : ∀ id', eventsSince s (m.step (handle w) 0 (.dispatch id signal)).state id' =
      if id = id' then eventsSince s m.state id' ++ [dispatchEvent w m.state id signal target]
      else eventsSince s m.state id' := eventsSince_snoc h.longer (emitted_dispatch_ok w hadvance)
  have hmoved := moved_step (c := .dispatch id signal) hallows (by simp) (by simp)
  refine
    { consistent := ?_
      tick := fun id source target hfocus =>
        h.tick id source target ((hmoved 0 id source target).mp hfocus)
      table := List.forall_mem_cons.mpr ⟨fun id' signal' hwrites => ?_, h.table⟩
      leaves := List.forall_mem_cons.mpr ⟨fun id' hbefore hafter => ?_, h.leaves⟩
      longer := h.longer.trans (emitted_grows w _ m.state)
      chained := fun id' => ?_ }
  · rw [viewOf_step_self]
    exact View.Consistent.next w h.consistent hallows ⟨target, hadvance⟩
  · obtain ⟨rfl, rfl⟩ : id = id' ∧ signal = signal' := by simpa [writes] using hwrites
    show advance (m.state.phase id) signal = .ok ((handle w (.dispatch id signal) m.state).2.phase id)
    rw [phase_dispatch_ok w hadvance, if_pos rfl, hadvance]
  · refine ⟨rfl, ?_⟩
    rcases View.running_of_lands (w := w) hallows ⟨target, hadvance⟩ (by simp) hbefore with
      hstays | hends
    · exact absurd hstays hafter
    · exact hends
  · by_cases hid : id = id'
    · subst hid
      -- no event of the job is awaited, so its chain is complete and grows by one link
      refine ⟨fun _ => ?_, fun t ht source target' hfocus => ?_⟩
      · rw [hevents, if_pos rfl, hphase, if_pos rfl]
        exact leads_snoc.mpr ⟨(h.chained id).present hclear, rfl⟩
      · have hnone := hclear t ht
        rw [(hmoved t id source target').mp hfocus] at hnone
        simp [Focus.awaitsEvent] at hnone
    · apply (h.chained id').frame
      · rw [hphase, if_neg (Ne.symm hid)]
      · rw [hevents, if_neg hid]
      · exact fun t => hmoved t id'

/-- An operator's write. -/
theorem Linear.step_overwrite {id : JobId} {phase : JobPhase} (hu : u < n) (hu₀ : u ≠ 0)
    (hallows : (viewOf w u m.log).Allows (.overwrite id phase))
    (hfresh : stale w ⟨u, .overwrite id phase, m.state⟩ m.log = false) :
    Linear w n s (m.step (handle w) u (.overwrite id phase)) := by
  obtain ⟨source, hfocus, hadvance⟩ := hallows
  have hread : m.state.phase id = source := by simpa [stale, hfocus] using hfresh
  obtain ⟨-, hoperator⟩ := advance_operatorTransition hadvance
  have hsource : source.steady = false := by
    rcases hoperator with ⟨rfl, -⟩ | ⟨rfl, -⟩ <;> rfl
  have hsteady : phase.steady = true := by
    rcases hoperator with ⟨-, rfl | ⟨reason, rfl⟩⟩ | ⟨-, rfl⟩ <;> rfl
  have hclear := (h.chained id).not_awaited (hread ▸ hsource)
  have hphase : ∀ id', (m.step (handle w) u (.overwrite id phase)).state.phase id' =
      if id' = id then phase else m.state.phase id' := fun id' =>
    phaseIn_insert m.state.state.phases id id' phase
  have hview : (viewOf w u (m.step (handle w) u (.overwrite id phase)).log).focus =
      .moved id source phase := by
    rw [viewOf_step_self]
    simp only [View.next, hfocus]
  have hother : ∀ t, t ≠ u → viewOf w t (m.step (handle w) u (.overwrite id phase)).log =
      viewOf w t m.log := fun t htu => viewOf_step_ne w (Ne.symm htu) _ m
  refine
    { consistent := ?_
      tick := fun id source target => ?_
      table := List.forall_mem_cons.mpr ⟨fun id' signal' hwrites => ?_, h.table⟩
      leaves := List.forall_mem_cons.mpr ⟨fun id' hbefore hafter => ?_, h.leaves⟩
      longer := h.longer
      chained := fun id' => ?_ }
  · rw [hother 0 (Ne.symm hu₀)]
    exact h.consistent.overwritten (hread ▸ hsource) hphase
  · rw [hother 0 (Ne.symm hu₀)]
    exact h.tick id source target
  · obtain ⟨rfl, rfl⟩ : id = id' ∧ .operatorTransition phase = signal' := by
      simpa [writes] using hwrites
    show advance (m.state.phase id) _ = .ok ((m.step (handle w) u (.overwrite id phase)).state.phase id)
    rw [hphase, if_pos rfl, hread, hadvance]
  · -- the job that is overwritten does not run
    have hne : id' ≠ id := by
      rintro rfl
      rw [← hread, show m.state.phase id' = .running from hbefore] at hsource
      exact Bool.noConfusion hsource
    exact absurd ((hphase id').trans ((if_neg hne).trans hbefore)) hafter
  · by_cases hid : id' = id
    · subst hid
      -- from now on the event of this write is awaited, and that of no other
      refine ⟨fun hnone => ?_, fun t ht source' target' hfocus' => ?_⟩
      · have hmine := hnone u hu
        rw [hview] at hmine
        simp [Focus.awaitsEvent] at hmine
      · by_cases htu : t = u
        · subst htu
          obtain ⟨-, rfl, rfl⟩ := Focus.moved.inj (hview.symm.trans hfocus')
          refine ⟨?_, by rw [hphase, if_pos rfl], hsource, hsteady, fun t' ht' hne => ?_⟩
          · rw [← hread]
            exact (h.chained id').present hclear
          · rw [hother t' hne]
            exact hclear t' ht'
        · rw [hother t htu] at hfocus'
          have hnone := hclear t ht
          rw [hfocus'] at hnone
          simp [Focus.awaitsEvent] at hnone
    · apply (h.chained id').frame
      · rw [hphase, if_neg hid]
      · rfl
      · intro t source' target'
        by_cases htu : t = u
        · rw [htu, hview, hfocus]
          simp [Ne.symm hid]
        · rw [hother t htu]

/-- An operator's event. -/
theorem Linear.step_emit {time : DateTime} {id : JobId} {source target : JobPhase}
    {reason : TransitionReason} (hu : u < n)
    (hallows : (viewOf w u m.log).Allows (.emit time id source target reason)) :
    Linear w n s (m.step (handle w) u (.emit time id source target reason)) := by
  have hfocus : (viewOf w u m.log).focus = .moved id source target := hallows
  have hu₀ : u ≠ 0 := by
    rintro rfl
    exact h.tick id source target hfocus
  obtain ⟨hleads, htarget, -, -, halone⟩ := (h.chained id).awaited u hu source target hfocus
  have hphase : ∀ id', (m.step (handle w) u (.emit time id source target reason)).state.phase id' =
      m.state.phase id' := fun id' => rfl
  have hemitted : (m.step (handle w) u (.emit time id source target reason)).state.emitted =
      m.state.emitted ++ [⟨time, id, source, target, reason, m.state.tool⟩] := rfl
  have hevents : ∀ id', eventsSince s (m.step (handle w) u (.emit time id source target reason)).state id' =
      if id = id' then eventsSince s m.state id' ++ [⟨time, id, source, target, reason, m.state.tool⟩]
      else eventsSince s m.state id' := eventsSince_snoc h.longer hemitted
  have hview : (viewOf w u (m.step (handle w) u (.emit time id source target reason)).log).focus =
      .rest := by
    rw [viewOf_step_self]
    rfl
  have hother : ∀ t, t ≠ u →
      viewOf w t (m.step (handle w) u (.emit time id source target reason)).log = viewOf w t m.log :=
    fun t htu => viewOf_step_ne w (Ne.symm htu) _ m
  refine
    { consistent := ?_
      tick := fun id source target => ?_
      table := List.forall_mem_cons.mpr ⟨fun id' signal' hwrites => ?_, h.table⟩
      leaves := List.forall_mem_cons.mpr ⟨fun id' hbefore hafter => absurd hbefore hafter, h.leaves⟩
      longer := h.longer.trans (emitted_grows w _ m.state)
      chained := fun id' => ?_ }
  · rw [hother 0 (Ne.symm hu₀)]
    exact h.consistent.of_steady fun _ _ _ hid => hid
  · rw [hother 0 (Ne.symm hu₀)]
    exact h.tick id source target
  · simp [writes] at hwrites
  · by_cases hid : id = id'
    · subst hid
      -- the awaited event closes the gap between the chain and the phase
      refine ⟨fun _ => ?_, fun t ht source' target' hfocus' => ?_⟩
      · rw [hevents, if_pos rfl, hphase, htarget]
        exact leads_snoc.mpr ⟨hleads, rfl⟩
      · by_cases htu : t = u
        · rw [htu, hview] at hfocus'
          exact absurd hfocus' (by simp)
        · have hnone := halone t ht htu
          rw [hother t htu] at hfocus'
          rw [hfocus'] at hnone
          simp [Focus.awaitsEvent] at hnone
    · apply (h.chained id').frame (hphase id')
      · rw [hevents, if_neg hid]
      · intro t source' target'
        by_cases htu : t = u
        · rw [htu, hview, hfocus]
          simp [hid]
        · rw [hother t htu]

theorem Linear.step {c : Cmd} {dag : Dag} (hu : u < n) (hallows : (viewOf w u m.log).Allows c)
    (hpermitted : c.Permitted (role u) dag) (hfresh : stale w ⟨u, c, m.state⟩ m.log = false)
    (hovertakes : overtakes w n ⟨u, c, m.state⟩ m.log = false) :
    Linear w n s (m.step (handle w) u c) := by
  cases c with
  | dispatch id signal =>
    obtain rfl := eq_zero_of_dispatch hpermitted
    apply h.step_dispatch hallows
    intro t ht
    simpa using List.any_eq_false.mp hovertakes t (List.mem_range.mpr ht)
  | overwrite id phase =>
    cases u with
    | zero =>
      obtain ⟨reason, dag', hcall⟩ := hpermitted
      exact Call.noConfusion hcall
    | succ u => exact h.step_overwrite hu (Nat.succ_ne_zero u) hallows hfresh
  | emit time id source target reason => exact h.step_emit hu hallows
  | restoreState saved =>
    cases u with
    | zero =>
      obtain ⟨dag', hcall⟩ := hpermitted
      exact Call.noConfusion hcall
    | succ u =>
      obtain ⟨id', target, reason, hcall⟩ := hpermitted
      exact Call.noConfusion hcall
  | _ => exact h.step_quiet hallows rfl rfl

end

/-! ## The other direction -/

/-- The events of every job form a chain. -/
def InChains (s m : InProcessScheduler) : Prop :=
  ∀ id, ∃ phase, Leads (s.phase id) (eventsSince s m id) phase

theorem InChains.of_step {s : InProcessScheduler} {m : SchedMachine} {u : Nat} {c : Cmd}
    (h : InChains s (m.step (handle w) u c).state) : InChains s m.state := by
  intro id
  obtain ⟨phase, hleads⟩ := h id
  exact hleads.of_longer (eventsSince_grows s (emitted_grows w c m.state) id)

section

variable {s : InProcessScheduler} {m : SchedMachine} {u : Nat} (h : Linear w n s m)

include h

theorem Linear.inChains : InChains s m.state := by
  intro id
  by_cases hawaits : ∃ t < n, (viewOf w t m.log).focus.awaitsEvent id = true
  · obtain ⟨t, ht, hawaits⟩ := hawaits
    obtain ⟨source, target, hmoved⟩ := Focus.awaitsEvent_iff.mp hawaits
    exact ⟨source, ((h.chained id).awaited t ht source target hmoved).1⟩
  · refine ⟨m.state.phase id, (h.chained id).present fun t ht => ?_⟩
    by_contra hnot
    exact hawaits ⟨t, ht, Bool.eq_true_of_not_eq_false hnot⟩

/-- A signal that overtakes an event breaks the chain. -/
theorem Linear.not_overtakes {c : Cmd} {dag : Dag} (hallows : (viewOf w u m.log).Allows c)
    (hpermitted : c.Permitted (role u) dag) (hchains : InChains s (m.step (handle w) u c).state) :
    overtakes w n ⟨u, c, m.state⟩ m.log = false := by
  cases c with
  | dispatch id signal =>
    obtain rfl := eq_zero_of_dispatch hpermitted
    obtain ⟨target, hadvance⟩ := h.consistent.advance hallows
    refine List.any_eq_false.mpr fun t ht hawaits => ?_
    obtain ⟨source, middle, hmoved⟩ := Focus.awaitsEvent_iff.mp hawaits
    obtain ⟨hleads, hmiddle, hsource, hsteady, -⟩ :=
      (h.chained id).awaited t (List.mem_range.mp ht) source middle hmoved
    obtain ⟨phase, hleads'⟩ := hchains id
    have hevents : eventsSince s (m.step (handle w) 0 (.dispatch id signal)).state id =
        eventsSince s m.state id ++ [dispatchEvent w m.state id signal target] :=
      (eventsSince_snoc h.longer (emitted_dispatch_ok w hadvance) id).trans (if_pos rfl)
    rw [hevents] at hleads'
    -- the signal was sent from where the operator's write led, and its event is not there yet
    obtain rfl : source = middle := hleads.unique (hmiddle ▸ (leads_snoc.mp hleads').1)
    rw [hsource] at hsteady
    exact Bool.noConfusion hsteady
  | _ => rfl

end

/-- An operator's write that follows the table finds the phase that was read. -/
theorem not_stale_of_followsTable {m : SchedMachine} {u : Nat} {c : Cmd}
    (hallows : (viewOf w u m.log).Allows c) (htable : FollowsTable w (m.step (handle w) u c).log) :
    stale w ⟨u, c, m.state⟩ m.log = false := by
  cases c with
  | overwrite id phase =>
    obtain ⟨source, hfocus, hadvance⟩ := hallows
    have hwrite := htable _ List.mem_cons_self id (.operatorTransition phase) rfl
    obtain rfl : source = m.state.phase id := advance_operatorTransition_source hadvance hwrite
    simp [stale, hfocus]
  | _ => rfl

/-! ## The result -/

/-- The arguments of an `operator_transition`. -/
structure Operation where
  id : JobId
  target : JobPhase
  reason : TransitionReason

def Operation.call (op : Operation) : Call := .operatorTransition op.id op.target op.reason

/-- A tick on `dag`, thread 0, next to operators. -/
def besideTick (s : InProcessScheduler) (dag : Dag) (ops : List Operation) :
    Config schedInterface InProcessScheduler SchedulerError Unit :=
  ⟨s.start, (Call.tick dag :: ops.map Operation.call).map Call.prog⟩

/-- The operators of a run that began in `s` are atomic steps of it. -/
structure Linearized (w : World) (s : InProcessScheduler)
    (c : Config schedInterface InProcessScheduler SchedulerError Unit) : Prop where
  table : FollowsTable w c.machine.log
  /-- No operator overwrites a phase that it did not read. -/
  read : Meets (fun e past => stale w e past = false) c.machine.log
  /-- A job leaves Running through the result of its execution only. -/
  leaves : ∀ e ∈ c.machine.log, ∀ id, e.pre.phase id = .running →
    (e.post (handle w)).phase id ≠ .running →
    e.tid = 0 ∧ (e.cmd = .dispatch id .executionSucceeded ∨ e.cmd = .dispatch id .executionFailed)
  /-- The tick does not fail on a transition. -/
  legal : ∀ p, c.threads[0]? = some p → illegal p = false
  chain : InChains s c.machine.state

/-- How thread `t` fails. -/
def roleFailed : Nat → SchedulerError → History schedInterface → Prop
  | 0 => TickFailed
  | _ + 1 => fun _ ℓ => (view ℓ).Resting

theorem besideTick_obey (s : InProcessScheduler) (dag : Dag) (ops : List Operation) :
    (besideTick s dag ops).AllObey (handle w) (callersProtocol (ops.length + 1) role)
      (fun _ _ ℓ => (view ℓ).Resting) roleFailed := by
  intro t p hp
  cases t with
  | zero =>
    obtain rfl : (Call.tick dag).prog = p := Option.some.inj hp
    exact Keeps.caller (Obeys.bind (tick_keeps ⟨dag, rfl⟩ ⟨rfl, rfl⟩) fun _ _ h => h) (Nat.succ_pos _)
  | succ t =>
    obtain ⟨op, hop, rfl⟩ : ∃ op, ops[t]? = some op ∧ op.call.prog = p := by
      simpa [besideTick] using hp
    obtain ⟨ht, -⟩ := List.getElem?_eq_some_iff.mp hop
    exact Keeps.caller (operatorTransition_obeys ⟨op.id, op.target, op.reason, rfl⟩ ⟨rfl, rfl⟩)
      (Nat.succ_lt_succ ht)

theorem Linear.start (s : InProcessScheduler) : Linear w n s s.start where
  consistent := View.Consistent.rest False _ s
  tick id source target := by simp [viewOf, InProcessScheduler.start, history, view, View.start]
  table := by simp [FollowsTable, InProcessScheduler.start]
  leaves := by simp [InProcessScheduler.start]
  longer := List.prefix_rfl
  chained id :=
    { present := fun _ => by simp [eventsSince, InProcessScheduler.start, Leads]
      awaited := fun t _ source target => by
        simp [viewOf, InProcessScheduler.start, history, view, View.start] }

/-- **When operators are atomic.** On any scheduler, and under every schedule of a tick and any number
of operators, the operators are atomic steps of the run exactly when each of their writes finds the
phase that was read and the tick sends no signal to the job between the write and the event. -/
theorem operators_linearize (w : World) (s : InProcessScheduler) (dag : Dag) (ops : List Operation)
    (schedule : List Nat) :
    let c := (besideTick s dag ops).run (handle w) schedule
    Linearized w s c ↔ Undisturbed w (ops.length + 1) c.machine.log := by
  intro c
  have hrun := Config.run_induct (handle w) (callersProtocol (ops.length + 1) role)
    (fun _ _ ℓ => (view ℓ).Resting) roleFailed
    (fun m => (Undisturbed w (ops.length + 1) m.log → Linear w (ops.length + 1) s m) ∧
      (FollowsTable w m.log ∧ InChains s m.state → Undisturbed w (ops.length + 1) m.log))
    (fun t c s => answers_handle w (role t) c s)
    (fun u m c hm hc => by
      obtain ⟨hu, hallows, hpermitted⟩ := hc
      refine ⟨fun hundisturbed => ?_, fun ⟨htable, hchains⟩ => ?_⟩
      · obtain ⟨⟨hfresh, hovertakes⟩, hpast⟩ := meets_cons.mp hundisturbed
        exact (hm.1 hpast).step hu hallows hpermitted hfresh hovertakes
      · have hpast := hm.2 ⟨(List.forall_mem_cons.mp htable).2, hchains.of_step⟩
        exact meets_cons.mpr ⟨⟨not_stale_of_followsTable hallows htable,
          (hm.1 hpast).not_overtakes hallows hpermitted hchains⟩, hpast⟩)
    schedule (besideTick_obey s dag ops)
    ⟨fun _ => Linear.start s, fun _ => meets_nil _⟩
  refine ⟨fun h => hrun.1.2 ⟨h.table, h.chain⟩, fun hundisturbed => ?_⟩
  have h := hrun.1.1 hundisturbed
  refine ⟨h.table, hundisturbed.imp fun _ _ he => he.1, h.leaves, fun p hp => ?_, h.inChains⟩
  have hobeys := hrun.2 0 p hp
  cases p with
  | fail e =>
    cases e with
    | topology e => rfl
    | illegalTransition e =>
      have hagrees := h.consistent.agrees
      rw [viewOf, show (view _).focus = .refused from hobeys] at hagrees
      exact hagrees.elim
  | _ => rfl

namespace Sample

/-- Job `a` has failed and is deadlettered. -/
def shelved : InProcessScheduler :=
  (runCalls world [.registerJob (job "a" .err), .tick (single "a")]
    (InProcessScheduler.new "t").start).state

def rearm : Operation := ⟨jobId "a", .pending, .operatorAction "again"⟩

/-- Two operators re-arm the job next to a tick. -/
def rearmTwice (schedule : List Nat) : Config schedInterface InProcessScheduler SchedulerError Unit :=
  (besideTick shelved (single "a") [rearm, rearm]).run (handle world) schedule

end Sample

/-- Both operators read Deadlettered. One re-arms the job, the tick makes it Running, and the other
writes Pending over that: the result of the execution is refused, and the tick fails. -/
theorem operators_interfere :
    let c := Sample.rearmTwice ([1, 2, 1, 1, 1] ++ List.replicate 14 0 ++ [2] ++ List.replicate 9 0)
    (∃ e ∈ c.machine.log, e.tid = 2 ∧ e.pre.phase (Sample.jobId "a") = .running ∧
      writes e = some (Sample.jobId "a", .operatorTransition .pending)) ∧
    c.threads.map illegal = [true, false, false] ∧
    ¬ Linearized Sample.world Sample.shelved c := by
  intro c
  have htick : c.threads.map illegal = [true, false, false] := by decide +kernel
  refine ⟨by decide +kernel, htick, fun h => ?_⟩
  obtain ⟨p, hp, hillegal⟩ : ∃ p, c.threads[0]? = some p ∧ illegal p = true := by
    have hhead : (c.threads.map illegal)[0]? = some true := by rw [htick]; rfl
    simpa using hhead
  rw [h.legal p hp] at hillegal
  exact Bool.noConfusion hillegal

/-- One operator after the other, while the tick waits for its turn. -/
theorem operators_linearize_inTurn :
    Linearized Sample.world Sample.shelved
      (Sample.rearmTwice ([0, 0, 1, 1, 1, 1, 2] ++ List.replicate 40 0)) :=
  (operators_linearize Sample.world Sample.shelved (Sample.single "a") [Sample.rearm, Sample.rearm]
    ([0, 0, 1, 1, 1, 1, 2] ++ List.replicate 40 0)).mpr (by decide +kernel)

end Shigoto
