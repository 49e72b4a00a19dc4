import Shigoto.Scheduler.Issued
import Shigoto.Scheduler.Sequential

/-!
# The journal

Every change of a phase emits one event, but for the entries that a tick or a registration adds for
new jobs, which are Pending with or without them. `Journal before events after` says what that makes
of the events: replayed from the one phase map they give the other, those of one job lead from phase
to phase, and each of them is a step of the phase table. An operator's write is in the journal once
its event is emitted; until then the caller owes it (`Focus.Logged`).

What a tick reports as its transitions is what it emitted (`tick_receipt`).
-/

namespace Shigoto

open Atomic

variable {w : World}

/-! ## Chains of events -/

/-- The events lead from one phase to another, each from where the one before it ended. -/
def Leads : JobPhase → List TransitionEvent → JobPhase → Prop
  | source, [], target => source = target
  | source, event :: events, target => event.source = source ∧ Leads event.target events target

theorem leads_snoc {source target : JobPhase} {events : List TransitionEvent}
    {event : TransitionEvent} : Leads source (events ++ [event]) target ↔
      Leads source events event.source ∧ event.target = target := by
  induction events generalizing source with
  | nil =>
    show event.source = source ∧ event.target = target ↔ source = event.source ∧ event.target = target
    rw [eq_comm]
  | cons first events ih =>
    show first.source = source ∧ Leads first.target (events ++ [event]) target ↔ _
    rw [ih, ← and_assoc]
    exact Iff.rfl

theorem Leads.unique {source target target' : JobPhase} {events : List TransitionEvent}
    (h : Leads source events target) (h' : Leads source events target') : target = target' := by
  induction events generalizing source with
  | nil => exact Eq.trans (Eq.symm h) h'
  | cons event events ih => exact ih h.2 h'.2

theorem Leads.of_longer {source target : JobPhase} {events events' : List TransitionEvent}
    (hgrows : events <+: events') (h : Leads source events' target) :
    ∃ middle, Leads source events middle := by
  induction events generalizing source events' with
  | nil => exact ⟨source, rfl⟩
  | cons event events ih =>
    obtain ⟨tail, rfl, htail⟩ := List.cons_prefix_iff.mp hgrows
    obtain ⟨middle, hmiddle⟩ := ih htail h.2
    exact ⟨middle, h.1, hmiddle⟩

/-- Without a write or an event of an operator, the same event is awaited as before. -/
theorem View.moved_next {v : View} {c : Cmd} {r : c.Resp} (hallows : v.Allows c)
    (hoverwrite : ∀ id phase, c ≠ .overwrite id phase)
    (hemit : ∀ time id source target reason, c ≠ .emit time id source target reason)
    (id : JobId) (source target : JobPhase) :
    (v.next c r).focus = .moved id source target ↔ v.focus = .moved id source target := by
  constructor
  · intro hmoved
    have hleads := (View.leadsTo_next (r := r) hallows).resolve_left (by simp [hmoved, Focus.idle])
    rw [hmoved] at hleads
    cases c with
    | overwrite id' phase => exact absurd rfl (hoverwrite id' phase)
    | now =>
      rcases hallows with hidle | ⟨id', source', target', hfocus⟩
      · have hnow : (v.focus.clock r).idle = true := Focus.idle_clock hidle r
        rw [show v.focus.clock r = _ from hmoved] at hnow
        exact Bool.noConfusion hnow
      · rw [show (v.next .now r).focus = v.focus.clock r from rfl, hfocus] at hmoved
        rw [hfocus]
        exact hmoved
    | _ => simp [Cmd.LeadsTo] at hleads
  · intro hmoved
    obtain ⟨pass, focus⟩ := v
    obtain rfl : focus = .moved id source target := hmoved
    cases c with
    | now => rfl
    | overwrite id' phase => exact absurd rfl (hoverwrite id' phase)
    | emit time id' source' target' reason => exact absurd rfl (hemit time id' source' target' reason)
    | dispatch id' signal =>
      have hdue : Due pass id' (.moved id source target) signal := hallows
      cases hdue
    | _ => simp [View.Allows, View.Resting, Focus.idle] at hallows

/-! ## Journals -/

/-- The event is a step of the phase table. -/
def TransitionEvent.Legal (e : TransitionEvent) : Prop :=
  ∃ signal, advance e.source signal = .ok e.target

/-- Write the events of a log into a phase map, oldest first. -/
def replay (phases : JobId → JobPhase) (events : List TransitionEvent) : JobId → JobPhase :=
  events.foldl (fun phases e id => if id = e.jobId then e.target else phases id) phases

theorem replay_snoc (phases : JobId → JobPhase) (events : List TransitionEvent)
    (e : TransitionEvent) (id : JobId) :
    replay phases (events ++ [e]) id = if id = e.jobId then e.target else replay phases events id := by
  simp [replay]

/-- The events are the canonical history of the phases from `before` to `after`. -/
structure Journal (before : JobId → JobPhase) (events : List TransitionEvent)
    (after : JobId → JobPhase) : Prop where
  replays : ∀ id, replay before events id = after id
  leads : ∀ id, Leads (before id) (events.filter fun e => e.jobId = id) (after id)
  legal : ∀ e ∈ events, e.Legal

theorem Journal.nil (phases : JobId → JobPhase) : Journal phases [] phases :=
  ⟨fun _ => rfl, fun _ => rfl, by simp⟩

/-- One more event, from where its job is. -/
theorem Journal.snoc {before after after' : JobId → JobPhase} {events : List TransitionEvent}
    (h : Journal before events after) {e : TransitionEvent} (hsource : e.source = after e.jobId)
    (hlegal : e.Legal) (hafter : ∀ id, after' id = if id = e.jobId then e.target else after id) :
    Journal before (events ++ [e]) after' := by
  refine ⟨fun id => ?_, fun id => ?_, fun e' he' => ?_⟩
  · rw [replay_snoc, h.replays, hafter]
  · rw [List.filter_append, hafter]
    by_cases hid : id = e.jobId
    · subst hid
      rw [if_pos rfl, List.filter_cons_of_pos (by simp), List.filter_nil, leads_snoc, hsource]
      exact ⟨h.leads e.jobId, rfl⟩
    · have hne : ¬ e.jobId = id := fun heq => hid heq.symm
      rw [if_neg hid, List.filter_cons_of_neg (by simpa using hne), List.filter_nil, List.append_nil]
      exact h.leads id
  · rcases List.mem_append.mp he' with hold | hnew
    · exact h.legal e' hold
    · rw [List.mem_singleton.mp hnew]
      exact hlegal

/-! ## What the caller owes the journal -/

/-- The phases are those recorded, but for an operator's write whose event is still to come. -/
def Focus.Logged (focus : Focus) (recorded phases : JobId → JobPhase) : Prop :=
  match focus with
  | .moved id source target => recorded id = source ∧
    (∃ signal, advance source signal = .ok target) ∧
    ∀ id', phases id' = if id' = id then target else recorded id'
  | _ => ∀ id, phases id = recorded id

theorem Focus.logged_iff {focus : Focus} (h : ∀ id source target, focus ≠ .moved id source target)
    {recorded phases : JobId → JobPhase} :
    focus.Logged recorded phases ↔ ∀ id, phases id = recorded id := by
  cases focus with
  | moved id source target => exact absurd rfl (h id source target)
  | _ => exact Iff.rfl

/-- A scheduler's events since `s` are a journal, up to what its caller owes. -/
def Journaled (w : World) (s : InProcessScheduler) (m : SchedMachine) : Prop :=
  ∃ events recorded, m.state.emitted = s.emitted ++ events ∧ Journal s.phase events recorded ∧
    (viewOf w 0 m.log).focus.Logged recorded m.state.phase

/-- The calls of a run without restores. -/
def Call.live : Call → Prop
  | .restoreState _ => False
  | _ => True

theorem Journaled.step {s : InProcessScheduler} {m : SchedMachine} (hs : Sequential w m)
    (h : Journaled w s m) {c : Cmd} (hallows : (viewOf w 0 m.log).Allows c)
    (hc : c.Permitted Call.live (viewOf w 0 m.log).pass.dag) :
    Journaled w s (m.step (handle w) 0 c) := by
  obtain ⟨events, recorded, hemitted, hjournal, hlogged⟩ := h
  rw [Journaled, viewOf_step_self]
  -- a command that neither moves a job nor emits an event
  have hquiet : c.moves = false → c.emits = false → ∃ events recorded,
      (m.step (handle w) 0 c).state.emitted = s.emitted ++ events ∧ Journal s.phase events recorded ∧
      ((viewOf w 0 m.log).next c (handle w c m.state).1).focus.Logged recorded
        (m.step (handle w) 0 c).state.phase := by
    intro hmoves hemits
    refine ⟨events, recorded, (emitted_of_not_emits w hemits m.state).trans hemitted, hjournal, ?_⟩
    have hphase := phase_of_not_moves w hmoves m.state
    have hstays := View.moved_next (r := (handle w c m.state).1) hallows
      (by rintro id phase rfl; exact Bool.noConfusion hmoves)
      (by rintro time id source target reason rfl; exact Bool.noConfusion hemits)
    by_cases howes : ∃ id source target, (viewOf w 0 m.log).focus = .moved id source target
    · obtain ⟨id, source, target, hfocus⟩ := howes
      rw [hfocus] at hlogged
      rw [(hstays id source target).mpr hfocus]
      exact ⟨hlogged.1, hlogged.2.1, fun id' => (hphase id').trans (hlogged.2.2 id')⟩
    · rw [Focus.logged_iff fun id source target hfocus => howes ⟨id, source, target, hfocus⟩] at hlogged
      refine (Focus.logged_iff fun id source target hfocus => howes
        ⟨id, source, target, (hstays id source target).mp hfocus⟩).mpr fun id => ?_
      exact (hphase id).trans (hlogged id)
  cases c with
  | dispatch id signal =>
    obtain ⟨target, hadvance⟩ := View.Consistent.advance hs hallows
    have hdue : Due (viewOf w 0 m.log).pass id (viewOf w 0 m.log).focus signal := hallows
    rw [answer_dispatch_ok w hadvance]
    have hrecorded : ∀ id, m.state.phase id = recorded id := by
      refine (Focus.logged_iff fun id' source target' hfocus => ?_).mp hlogged
      rw [hfocus] at hdue
      cases hdue
    have hnot : ∀ id' source target', (viewOf w 0 m.log).focus.dispatched ≠ .moved id' source target' := by
      generalize (viewOf w 0 m.log).focus = focus at hdue ⊢
      cases hdue <;> simp [Focus.dispatched]
    refine ⟨events ++ [dispatchEvent w m.state id signal target], (m.step (handle w) 0
      (.dispatch id signal)).state.phase, ?_, hjournal.snoc (hrecorded id) ⟨signal, hadvance⟩ ?_,
      (Focus.logged_iff hnot).mpr fun _ => rfl⟩
    · rw [Machine.step, emitted_dispatch_ok w hadvance, hemitted, List.append_assoc]
    · intro id'
      rw [← hrecorded]
      exact phase_dispatch_ok w hadvance id'
  | overwrite id phase =>
    obtain ⟨source, hfocus, hadvance⟩ := hallows
    have hagrees := hs.agrees
    rw [hfocus] at hagrees hlogged
    have hsource : m.state.phase id = source := hagrees (.inl True.intro)
    refine ⟨events, recorded, hemitted, hjournal, ?_⟩
    have hnext : ((viewOf w 0 m.log).next (.overwrite id phase) ()).focus = .moved id source phase := by
      simp [View.next, hfocus]
    rw [show (handle w (.overwrite id phase) m.state).1 = () from rfl, hnext]
    refine ⟨(hlogged id).symm.trans hsource, ⟨_, hadvance⟩, fun id' => ?_⟩
    rw [← hlogged id']
    exact phaseIn_insert m.state.state.phases id id' phase
  | emit time id source target reason =>
    have hfocus : (viewOf w 0 m.log).focus = .moved id source target := hallows
    rw [hfocus] at hlogged
    obtain ⟨hsource, hlegal, hphases⟩ := hlogged
    refine ⟨events ++ [⟨time, id, source, target, reason, m.state.tool⟩], m.state.phase, ?_,
      hjournal.snoc (e := ⟨time, id, source, target, reason, m.state.tool⟩) hsource.symm hlegal hphases,
      fun _ => rfl⟩
    rw [← List.append_assoc, ← hemitted]
    rfl
  | restoreState saved => exact hc.elim
  | _ => exact hquiet rfl rfl

/-! ## Receipts -/

/-- What has been emitted since `base` is what the tick will report. -/
def Reported (base transitions : List TransitionEvent) (m : SchedMachine) : Prop :=
  m.state.emitted = base ++ transitions

/-- A program that collects transitions collects what it emits. -/
abbrev Reports (w : World) (base : List TransitionEvent) (p : Sched (List TransitionEvent))
    (m : SchedMachine) : Prop :=
  wp (handle w) 0 p (Reported base) (fun _ _ => True) m

section

variable {m : SchedMachine} {base transitions : List TransitionEvent} {id : JobId}

theorem Reported.step (h : Reported base transitions m) {c : Cmd} (hc : c.emits = false) :
    Reported base transitions (m.step (handle w) 0 c) :=
  (emitted_of_not_emits w hc m.state).trans h

/-- Questions leave the report as it is. -/
theorem Reported.wp_asks (h : Reported base transitions m) {α : Type} {p : Sched α} {ids : List JobId}
    (hp : Sched.Issues (Cmd.asks ids) p) :
    wp (handle w) 0 p (fun _ => Reported base transitions) (fun _ _ => True) m :=
  have hasked := Issues.wp (J := Reported base transitions) hp
    (fun _ _ hm' hc => hm'.step (Cmd.not_emits_of_asks hc)) h
  wp_mono hasked (fun _ _ hm' => hm') fun _ _ _ => True.intro

theorem reports_dispatch (h : Reported base transitions m) (signal : Signal) :
    Reports w base (dispatch id signal transitions) m := by
  apply wp_perform_bind.mpr
  cases hadvance : advance (m.state.phase id) signal with
  | error e =>
    rw [show (handle w (.dispatch id signal) m.state).1 = .error e from
      congrArg Prod.fst (effect_dispatch_error w hadvance)]
    exact True.intro
  | ok target =>
    rw [answer_dispatch_ok w hadvance]
    show (handle w (.dispatch id signal) m.state).2.emitted = _
    rw [emitted_dispatch_ok w hadvance, show m.state.emitted = _ from h, List.append_assoc]

theorem reports_advanceOnce (h : Reported base transitions m) (source : JobPhase) (dag : Dag) :
    wp (handle w) 0 (advanceOnce id source dag transitions) (fun r => Reported base r.2)
      (fun _ _ => True) m := by
  -- every branch ends with a signal or without one
  have hsend : ∀ (signal : Signal) (m : SchedMachine), Reported base transitions m →
      wp (handle w) 0 (do
        let transitions ← dispatch id signal transitions
        return (true, transitions)) (fun r => Reported base r.2) (fun _ _ => True) m :=
    fun signal m hm => wp_bind.mpr (reports_dispatch hm signal)
  have hgates : ∀ source : JobPhase, wp (handle w) 0 (do
      let aggregate ← evaluateGates id dag
      let alreadyGated := source = .gated && aggregate = .someWaiting
      if alreadyGated then return (false, transitions)
      else do
        let transitions ← dispatch id (.evaluateGates aggregate) transitions
        return (true, transitions)) (fun r => Reported base r.2) (fun _ _ => True) m := by
    intro source
    apply wp_bind.mpr
    refine wp_mono (h.wp_asks (issues_evaluateGates (List.mem_singleton_self id) dag))
      (fun aggregate m' hm' => ?_) fun _ _ h => h
    dsimp only
    split
    · exact hm'
    · exact hsend _ m' hm'
  cases source with
  | pending => exact hgates .pending
  | gated => exact hgates .gated
  | ready =>
    apply wp_perform_bind.mpr
    have hm' := h.step (w := w) (c := .tryAllocate id) rfl
    cases (handle w (.tryAllocate id) m.state).1 with
    | error e => exact hm'
    | ok u => exact hsend _ _ hm'
  | retrying untilMs =>
    apply wp_perform_bind.mpr
    have hm' := h.step (w := w) (c := .now) rfl
    split
    · exact hm'
    · exact hsend _ _ hm'
  | failed n =>
    apply wp_bind.mpr
    refine wp_mono (h.wp_asks (issues_decideRetry (List.mem_singleton_self id)))
      (fun outcome m' hm' => ?_) fun _ _ h => h
    exact hsend _ m' hm'
  | _ => exact h

theorem reports_drive (h : Reported base transitions m) (dag : Dag) (bound : Nat) :
    Reports w base (drive dag id bound transitions) m := by
  induction bound generalizing m transitions with
  | zero => exact h
  | succ bound ih =>
    apply wp_perform_bind.mpr
    have hm' := h.step (w := w) (c := .phaseOf id) rfl
    split
    · exact hm'
    · apply wp_bind.mpr
      refine wp_mono (reports_advanceOnce hm' _ dag) ?_ fun _ _ h => h
      rintro ⟨progressed, transitions'⟩ m'' hm''
      cases progressed with
      | false => exact hm''
      | true => exact ih hm''

theorem reports_pass1 (h : Reported base transitions m) (dag : Dag) (wave : List JobId) :
    Reports w base (pass1 dag wave transitions) m := by
  induction wave generalizing m transitions with
  | nil => exact h
  | cons id wave ih =>
    apply wp_perform_bind.mpr
    apply wp_bind.mpr
    exact wp_mono (reports_drive (h.step rfl) dag 6) (fun _ _ hm' => ih hm') fun _ _ h => h

theorem reports_spawnAll (h : Reported base transitions m) (ids : List JobId) (tasks : List Task) :
    wp (handle w) 0 (spawnAll ids tasks) (fun _ => Reported base transitions) (fun _ _ => True) m := by
  induction ids generalizing m tasks with
  | nil => exact h
  | cons id ids ih => exact ih ((h.step (c := .lookupJob id) rfl).step rfl) _

theorem reports_applyAll (h : Reported base transitions m) (results : List (JobId × ExecResult)) :
    Reports w base (applyAll results transitions) m := by
  induction results generalizing m transitions with
  | nil => exact h
  | cons x results ih =>
    obtain ⟨id, result⟩ := x
    apply wp_bind.mpr
    cases result with
    | ok u =>
      apply wp_bind.mpr
      refine wp_mono (reports_dispatch h .executionSucceeded) (fun transitions' m' hm' => ?_)
        fun _ _ h => h
      exact ih ((hm'.step (c := .clearFailures id) rfl).step (c := .release id) rfl)
    | error u =>
      apply wp_perform_bind.mpr
      apply wp_bind.mpr
      refine wp_mono (reports_dispatch (h.step rfl) .executionFailed) (fun transitions' m' hm' => ?_)
        fun _ _ h => h
      exact ih (hm'.step (c := .release id) rfl)

theorem reports_pass2 (h : Reported base transitions m) (wave : List JobId) :
    Reports w base (pass2 wave transitions) m := by
  apply wp_perform_bind.mpr
  have hm' := h.step (w := w) (c := .runningOf wave) rfl
  split
  · exact hm'
  · apply wp_bind.mpr
    apply wp_bind.mpr
    refine wp_mono (reports_spawnAll hm' _ []) (fun tasks m'' hm'' => ?_) fun _ _ h => h
    exact reports_applyAll (hm''.step (c := .join tasks) rfl) _

theorem reports_pass3 (h : Reported base transitions m) (dag : Dag) (wave : List JobId) :
    Reports w base (pass3 dag wave transitions) m := by
  induction wave generalizing m transitions with
  | nil => exact h
  | cons id wave ih =>
    apply wp_bind.mpr
    exact wp_mono (reports_drive h dag 3) (fun _ _ hm' => ih hm') fun _ _ h => h

theorem reports_runWaves (h : Reported base transitions m) (dag : Dag) (waves : List (List JobId)) :
    Reports w base (runWaves dag waves transitions) m := by
  induction waves generalizing m transitions with
  | nil => exact h
  | cons wave waves ih =>
    apply wp_bind.mpr
    refine wp_mono (reports_pass1 h dag wave) (fun _ _ h₁ => ?_) fun _ _ h => h
    apply wp_bind.mpr
    refine wp_mono (reports_pass2 h₁ wave) (fun _ _ h₂ => ?_) fun _ _ h => h
    apply wp_bind.mpr
    exact wp_mono (reports_pass3 h₂ dag wave) (fun _ _ h₃ => ih h₃) fun _ _ h => h

end

/-- **A receipt lists what was emitted during its tick**, in the order in which it was emitted. -/
theorem tick_receipt {dag : Dag} {m m' : SchedMachine} {receipt : TickReceipt}
    (htick : (tick dag).exec (handle w) 0 m = (.ok receipt, m')) :
    m'.state.emitted = m.state.emitted ++ receipt.transitionsThisTick := by
  suffices h : wp (handle w) 0 (tick dag)
      (fun receipt => Reported m.state.emitted receipt.transitionsThisTick) (fun _ _ => True) m by
    have hexec := (wp_iff_exec.mp h).1 receipt (by rw [htick])
    rwa [htick] at hexec
  have hstart : Reported m.state.emitted [] ((m.step (handle w) 0 .now).step (handle w) 0 (.waves dag)) :=
    (List.append_nil _).symm
  refine wp_tick (fun _ _ => True.intro) fun waves _ => ?_
  refine wp_mono (reports_runWaves hstart dag waves) (fun transitions m' hm' => ?_) fun _ _ h => h
  exact (hm'.step (c := .snapshotInner) rfl).step (c := .hashOrder) rfl

/-! ## The result -/

/-- **The emitted events are the canonical history.** On every run without restores, what was emitted
since the start is a journal from the phases at the start to those at the end, and each tick reports
exactly the part of it that was emitted during the tick. -/
theorem journal_canonical (w : World) (s : InProcessScheduler) {calls : List Call}
    (hcalls : ∀ call ∈ calls, call.live) :
    let m := runCalls w calls s.start
    (∃ events, m.state.emitted = s.emitted ++ events ∧ Journal s.phase events m.state.phase) ∧
    ∀ before dag after, calls = before ++ .tick dag :: after → ∀ receipt m',
      (tick dag).exec (handle w) 0 (runCalls w before s.start) = (.ok receipt, m') →
        m'.state.emitted = (runCalls w before s.start).state.emitted ++ receipt.transitionsThisTick := by
  intro m
  refine ⟨?_, fun before dag after _ receipt m' htick => tick_receipt htick⟩
  have hstart : Journaled w s s.start :=
    ⟨[], s.phase, (List.append_nil _).symm, Journal.nil _, fun _ => rfl⟩
  obtain ⟨⟨events, recorded, hemitted, hjournal, hlogged⟩, -, hrest⟩ := runCalls_induct
    (J := Journaled w s) (fun m c hs hJ hallows hc => hJ.step hs hallows hc) hcalls
    (Sequential.start w s) (Resting.start w s) hstart
  refine ⟨events, hemitted, ?_⟩
  have hphases := (Focus.logged_iff fun id source target hfocus => ?_).mp hlogged
  · rwa [show m.state.phase = recorded from funext hphases]
  · have hidle := hrest.1
    rw [hfocus] at hidle
    exact Bool.noConfusion hidle

/-- A job that fails and is re-armed, next to one that succeeds. -/
theorem journal_canonical_rearmed :
    let calls := Sample.onceOn Sample.pair .err .ok ++
      [.operatorTransition (Sample.jobId "a") .pending (.operatorAction "again"), .tick Sample.pair]
    let m := runCalls Sample.world calls (InProcessScheduler.new "t").start
    m.state.emitted.length = 12 ∧
      Journal (InProcessScheduler.new "t").phase m.state.emitted m.state.phase := by
  intro calls
  have hcalls : ∀ call ∈ calls, call.live := by simp [calls, Sample.onceOn, Call.live]
  have hjournal := (journal_canonical Sample.world (InProcessScheduler.new "t") hcalls).1
  have hlength : (runCalls Sample.world calls (InProcessScheduler.new "t").start).state.emitted.length = 12 := by
    decide +kernel
  generalize runCalls Sample.world calls (InProcessScheduler.new "t").start = m at *
  obtain ⟨events, hemitted, hjournal⟩ := hjournal
  refine ⟨hlength, ?_⟩
  rwa [show m.state.emitted = events from hemitted]

end Shigoto
