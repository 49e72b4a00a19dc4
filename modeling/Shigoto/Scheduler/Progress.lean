import Shigoto.Scheduler.BudgetSafety
import Shigoto.Scheduler.Legality
import Shigoto.Scheduler.Plain
import Shigoto.Waves

/-!
# Progress under any budget

With no gates and no policies each tick that finds work ends some job, however small the caps are. A
job that is Running when the tick begins is executed in its wave and ends there. When none is, all
slots are free: then the first job in the order of the waves that is not at its end is started, since
its predecessors are in earlier waves and no job before it takes a slot.
-/

namespace Shigoto

open Atomic

variable {w : World} {m m₁ m₂ : SchedMachine} {dag : Dag} {transitions : List TransitionEvent}
  {verdict : JobId → ExecResult} {wave ids ids' : List JobId} {id : JobId}

/-! ## Phases without gates and policies -/

/-- A phase that a job with this verdict can have. -/
def Suits (result : ExecResult) : JobPhase → Prop
  | .pending | .gated | .ready | .running => True
  | .succeeded => result = .ok ()
  | .failed _ | .deadlettered => result = .error ()
  | _ => False

theorem Suits.step {result : ExecResult} {supported slack : Bool} {phase next : JobPhase}
    (h : Suits result phase) (hstep : plainStep supported slack phase = some next) :
    Suits result next ∧ next.isFailed = false := by
  cases phase with
  | pending =>
    obtain rfl := Option.some.inj hstep
    split <;> exact ⟨True.intro, rfl⟩
  | gated =>
    obtain ⟨-, rfl⟩ := by simpa [plainStep] using hstep
    exact ⟨True.intro, rfl⟩
  | ready =>
    obtain ⟨-, rfl⟩ := by simpa [plainStep] using hstep
    exact ⟨True.intro, rfl⟩
  | failed n =>
    obtain rfl := Option.some.inj hstep
    exact ⟨h, rfl⟩
  | _ => cases hstep

theorem Suits.driven {result : ExecResult} {phase : JobPhase} (supported slack : Bool) (bound : Nat)
    (h : Suits result phase) (hfailed : phase.isFailed = false ∨ 0 < bound) :
    Suits result ((settle supported slack bound phase).getLastD phase) ∧
      ((settle supported slack bound phase).getLastD phase).isFailed = false := by
  induction bound generalizing phase with
  | zero => exact ⟨h, hfailed.resolve_right (lt_irrefl 0)⟩
  | succ bound ih =>
    unfold settle
    split
    · next next hstep =>
      obtain ⟨hnext, hcalm⟩ := h.step hstep
      rw [List.getLastD_cons]
      exact ih hnext (.inl hcalm)
    · next hstuck =>
      refine ⟨h, ?_⟩
      cases phase with
      | failed n => cases hstuck
      | _ => rfl

/-- A terminal phase is the end that the verdict says. -/
theorem Suits.final {result : ExecResult} {phase : JobPhase} (h : Suits result phase)
    (hterminal : phase.isTerminal = true) : phase = ExecResult.final result := by
  cases phase with
  | succeeded =>
    obtain rfl : result = .ok () := h
    rfl
  | deadlettered =>
    obtain rfl : result = .error () := h
    rfl
  | skipped reason => exact h.elim
  | _ => cases hterminal

theorem Suits.phase (result : ExecResult) : Suits result (ExecResult.phase result) := by
  cases result <;> rfl

/-- A job that is neither Running nor at its end is driven to Running if nothing holds it back. -/
theorem Suits.settle_running {result : ExecResult} {phase : JobPhase} (h : Suits result phase)
    (hfailed : phase.isFailed = false) (hterminal : phase.isTerminal = false)
    (hrunning : phase ≠ .running) :
    (settle true true 6 phase).getLastD phase = .running := by
  cases phase with
  | pending => rfl
  | gated => rfl
  | ready => rfl
  | running => exact absurd rfl hrunning
  | failed n => cases hfailed
  | succeeded => cases hterminal
  | deadlettered => cases hterminal
  | skipped reason => cases hterminal
  | retrying untilMs => exact h.elim
  | waitingForOperator => exact h.elim

theorem settle_of_terminal {supported slack : Bool} {phase : JobPhase} (bound : Nat)
    (h : phase.isTerminal = true) : settle supported slack bound phase = [] := by
  refine settle_of_stuck ?_ bound
  cases phase with
  | succeeded => rfl
  | deadlettered => rfl
  | skipped reason => rfl
  | _ => cases h

/-- The execution of the job is over. -/
def JobPhase.over (phase : JobPhase) : Bool := phase.isTerminal || phase.isFailed

theorem settle_of_over {supported slack : Bool} {phase : JobPhase} (bound : Nat)
    (h : phase.over = true) :
    ((settle supported slack (bound + 1) phase).getLastD phase).isTerminal = true := by
  rcases Bool.or_eq_true_iff.mp h with hterminal | hfailed
  · rwa [settle_of_terminal _ hterminal]
  · cases phase with
    | failed n =>
      rw [settle]
      show ((JobPhase.deadlettered :: settle supported slack bound .deadlettered).getLastD _).isTerminal = true
      rw [settle_of_stuck rfl]
      rfl
    | _ => cases hfailed

/-! ## Jobs in order -/

/-- Nothing is registered that could hold a job back, and each job is where its verdict allows. -/
structure Fitting (verdict : JobId → ExecResult) (m : SchedMachine) : Prop where
  plain : m.state.state.Plain
  yields : m.state.state.Yields verdict
  suits : ∀ id, Suits (verdict id) (m.state.phase id)

/-- Each job is in order, and none waits for its policy. -/
structure InOrder (verdict : JobId → ExecResult) (m : SchedMachine) : Prop
    extends Fitting verdict m where
  calm : ∀ id, (m.state.phase id).isFailed = false

theorem Fitting.not_retrying (h : Fitting verdict m) (id : JobId) (untilMs : Int64) :
    m.state.phase id ≠ .retrying untilMs := by
  intro hphase
  have hsuits := h.suits id
  rw [hphase] at hsuits
  exact hsuits

/-- No job has moved, and no slot was taken or given back. -/
structure Still (m m' : SchedMachine) : Prop where
  phase : ∀ id, m'.state.phase id = m.state.phase id
  budget : m'.state.budget = m.state.budget

theorem Still.trans (h : Still m m₁) (h' : Still m₁ m₂) : Still m m₂ :=
  ⟨fun id => (h'.phase id).trans (h.phase id), h'.budget.trans h.budget⟩

theorem Still.supported (h : Still m m₁) : Supported dag m₁.state id ↔ Supported dag m.state id :=
  forall₂_congr fun pred _ => by rw [h.phase]

theorem Still.fitting (h : Still m m₁) (hsetup : m.state.state.SameSetup m₁.state.state)
    (hfitting : Fitting verdict m) : Fitting verdict m₁ :=
  ⟨hsetup.plain hfitting.plain, hsetup.yields hfitting.yields, fun id => h.phase id ▸ hfitting.suits id⟩

theorem still_seed (id : JobId) (m : SchedMachine) : Still m (m.step (handle w) 0 (.seed id)) :=
  ⟨phaseIn_seedPhase m.state.state.phases id, rfl⟩

/-- Driving `id` keeps all jobs in order, and judges its failure. -/
theorem Fitting.walked {supported slack : Bool} {bound : Nat} (h : Fitting verdict m)
    (hbound : (m.state.phase id).isFailed = false ∨ 0 < bound)
    (hwalked : Walked id (settle supported slack bound (m.state.phase id)) m m₁) :
    Fitting verdict m₁ ∧ (m₁.state.phase id).isFailed = false := by
  obtain ⟨hsuits, hcalm⟩ := (h.suits id).driven supported slack bound hbound
  rw [← hwalked.phase_self] at hsuits hcalm
  refine ⟨⟨hwalked.setup.plain h.plain, hwalked.setup.yields h.yields, fun id' => ?_⟩, hcalm⟩
  by_cases hid : id' = id
  · rw [hid]
    exact hsuits
  · rw [hwalked.phase_ne hid]
    exact h.suits id'

theorem wp_pass1_inOrder (wave : List JobId) (h : InOrder verdict m) :
    wp (handle w) 0 (pass1 dag wave transitions) (fun _ => InOrder verdict) (fun _ _ => False) m := by
  induction wave generalizing m transitions with
  | nil => exact h
  | cons id wave ih =>
    apply wp_perform_bind.mpr
    set m₁ := m.step (handle w) 0 (.seed id) with hm₁
    have hstill : Still m m₁ := still_seed id m
    have h₁ : Fitting verdict m₁ := hstill.fitting ⟨rfl, rfl, rfl, rfl⟩ h.toFitting
    apply wp_bind.mpr
    refine wp_mono (wp_drive_plain dag id h₁.plain 6 transitions (h₁.not_retrying id)) ?_ fun _ _ he => he
    rintro transitions₂ m₂ ⟨hwalked, -⟩
    obtain ⟨h₂, hcalm⟩ := h₁.walked (.inr (by decide)) hwalked
    refine ih ⟨h₂, fun id' => ?_⟩
    by_cases hid : id' = id
    · rw [hid]
      exact hcalm
    · rw [hwalked.phase_ne hid, hstill.phase]
      exact h.calm id'

/-- **PASS 3 brings the jobs of its wave in order**, and those whose execution is over to their end. -/
theorem wp_pass3_inOrder (wave : List JobId) (h : Fitting verdict m)
    (hfailed : ∀ id, (m.state.phase id).isFailed = true → id ∈ wave) :
    wp (handle w) 0 (pass3 dag wave transitions)
      (fun _ m' => InOrder verdict m' ∧
        ∀ id, (m.state.phase id).over = true → (m'.state.phase id).isTerminal = true)
      (fun _ _ => False) m := by
  induction wave generalizing m transitions with
  | nil =>
    have hcalm : ∀ id, (m.state.phase id).isFailed = false := fun id =>
      Bool.eq_false_of_not_eq_true fun hid => List.not_mem_nil (hfailed id hid)
    refine ⟨⟨h, hcalm⟩, fun id hover => ?_⟩
    exact (Bool.or_eq_true_iff.mp hover).resolve_right (by simp [hcalm id])
  | cons id wave ih =>
    apply wp_bind.mpr
    refine wp_mono (wp_drive_plain dag id h.plain 3 transitions (h.not_retrying id)) ?_ fun _ _ he => he
    rintro transitions₁ m₁ ⟨hwalked, -⟩
    obtain ⟨h₁, hcalm⟩ := h.walked (.inr (by decide)) hwalked
    have hfailed₁ : ∀ id', (m₁.state.phase id').isFailed = true → id' ∈ wave := by
      intro id' hid'
      by_cases hid : id' = id
      · rw [hid, hcalm] at hid'
        cases hid'
      · rw [hwalked.phase_ne hid] at hid'
        exact (List.mem_cons.mp (hfailed id' hid')).resolve_left hid
    refine wp_mono (ih h₁ hfailed₁) ?_ fun _ _ he => he
    rintro _ m' ⟨hinOrder, hover⟩
    refine ⟨hinOrder, fun id' hid' => hover id' ?_⟩
    by_cases hid : id' = id
    · rw [hid] at hid' ⊢
      rw [hwalked.phase_self, JobPhase.over, settle_of_over 2 hid']
      rfl
    · rwa [hwalked.phase_ne hid]

/-- Some jobs of `ids` have moved: none that was at its end, and each one that was Running has ended. -/
structure Progressed (ids : List JobId) (m m' : SchedMachine) : Prop where
  others : ∀ id, id ∉ ids ∨ (m.state.phase id).isTerminal = true → m'.state.phase id = m.state.phase id
  ended : ∀ id ∈ ids, m.state.phase id = .running → (m'.state.phase id).isTerminal = true

theorem Progressed.append (h : Progressed ids m m₁) (h' : Progressed ids' m₁ m₂)
    (hdisjoint : ids.Disjoint ids') : Progressed (ids ++ ids') m m₂ := by
  refine ⟨fun id hid => ?_, fun id hid hrunning => ?_⟩
  · have hsame : m₁.state.phase id = m.state.phase id :=
      h.others id (hid.imp_left fun hnot hmem => hnot (List.mem_append_left _ hmem))
    rw [h'.others id, hsame]
    rw [hsame]
    exact hid.imp_left fun hnot hmem => hnot (List.mem_append_right _ hmem)
  · rcases List.mem_append.mp hid with hmem | hmem
    · have hterminal := h.ended id hmem hrunning
      rwa [h'.others id (.inr hterminal)]
    · refine h'.ended id hmem ?_
      rw [h.others id (.inl fun hmem' => hdisjoint hmem' hmem)]
      exact hrunning

/-- **PASS 2 and PASS 3 end every job that is Running.** -/
theorem wp_execute (dag : Dag) (hnodup : wave.Nodup) (h : InOrder verdict m) :
    wp (handle w) 0 (pass2 wave transitions >>= pass3 dag wave)
      (fun _ m' => InOrder verdict m' ∧ Progressed wave m m') (fun _ _ => False) m := by
  apply wp_bind.mpr
  refine wp_mono (wp_pass2 hnodup) ?_ fun _ _ he => he
  rintro transitions₁ m₁ ⟨tasks, new, hexecuted, -, -⟩
  have h₁ : Fitting verdict m₁ := by
    refine ⟨hexecuted.setup.plain h.plain, hexecuted.setup.yields h.yields, fun id => ?_⟩
    by_cases hid : id ∈ m.state.runningOf wave
    · rw [hexecuted.phase_of_yields h.yields hid]
      exact Suits.phase _
    · rw [hexecuted.others id hid]
      exact h.suits id
  have hfailed₁ : ∀ id, (m₁.state.phase id).isFailed = true → id ∈ wave := by
    intro id hid
    by_contra hnot
    rw [hexecuted.others id fun hmem => hnot (InProcessScheduler.mem_runningOf.mp hmem).1, h.calm] at hid
    cases hid
  refine wp_mono (wp_and (wp_pass3_inOrder wave h₁ hfailed₁)
    (wp_drives (issues_pass3 dag wave transitions₁))) ?_ fun _ _ he => he.1
  rintro _ m₂ ⟨⟨h₂, hover⟩, hdrove⟩
  refine ⟨h₂, ⟨fun id hid => ?_, fun id hid hrunning => ?_⟩⟩
  · have hnot : id ∉ m.state.runningOf wave := by
      intro hmem
      obtain ⟨hwave, hrunning⟩ := InProcessScheduler.mem_runningOf.mp hmem
      rcases hid with hnot | hterminal
      · exact hnot hwave
      · rw [hrunning] at hterminal
        cases hterminal
    have hsame := hexecuted.others id hnot
    rw [hdrove.others id, hsame]
    rw [hsame]
    exact hid.imp_right .inr
  · apply hover
    rw [hexecuted.phase_of_yields h.yields (InProcessScheduler.mem_runningOf.mpr ⟨hid, hrunning⟩)]
    cases verdict id <;> rfl

/-- **The waves end every job that is Running**, and undo nothing. -/
theorem wp_runWaves_progressed {waves : List (List JobId)} (hnodup : waves.flatten.Nodup)
    (h : InOrder verdict m) :
    wp (handle w) 0 (runWaves dag waves transitions)
      (fun _ m' => InOrder verdict m' ∧ Progressed waves.flatten m m') (fun _ _ => False) m := by
  induction waves generalizing m transitions with
  | nil => exact ⟨h, fun _ _ => rfl, fun id hid => absurd hid List.not_mem_nil⟩
  | cons wave waves ih =>
    rw [List.flatten_cons] at hnodup ⊢
    obtain ⟨hwave, hrest, hdisjoint⟩ := List.nodup_append'.mp hnodup
    apply wp_bind.mpr
    refine wp_mono (wp_and (wp_pass1_inOrder wave h) (wp_drives (issues_pass1 dag wave transitions))) ?_
      fun _ _ he => he.1
    rintro transitions₁ m₁ ⟨h₁, hdrove⟩
    apply wp_bind.mpr
    refine wp_mono (wp_bind.mp (wp_execute dag hwave h₁)) (fun transitions₂ m₂ hpass3 => ?_) fun _ _ he => he
    apply wp_bind.mpr
    refine wp_mono hpass3 ?_ fun _ _ he => he
    rintro transitions₃ m₃ ⟨h₃, hprogressed⟩
    have hkept : ∀ id, id ∉ wave ∨ m.state.phase id = .running ∨ (m.state.phase id).isTerminal = true →
        m₁.state.phase id = m.state.phase id := hdrove.others
    have hwhole : Progressed wave m m₃ := by
      refine ⟨fun id hid => ?_, fun id hid hrunning => ?_⟩
      · have hsame := hkept id (hid.imp_right .inr)
        rw [hprogressed.others id (hsame.symm ▸ hid), hsame]
      · exact hprogressed.ended id hid ((hkept id (.inr (.inl hrunning))).trans hrunning)
    refine wp_mono (ih hrest h₃) ?_ fun _ _ he => he
    rintro _ m' ⟨h', hprogressed'⟩
    exact ⟨h', hwhole.append hprogressed' hdisjoint⟩

/-! ## The first job that is left -/

/-- Driving does nothing to a job at its end. -/
theorem wp_drive_still (h : Fitting verdict m) (hterminal : (m.state.phase id).isTerminal = true)
    (bound : Nat) :
    wp (handle w) 0 (drive dag id bound transitions) (fun _ m' => Fitting verdict m' ∧ Still m m')
      (fun _ _ => False) m := by
  have hdrive := wp_drive_plain (w := w) dag id h.plain bound transitions (h.not_retrying id)
  rw [settle_of_terminal bound hterminal] at hdrive
  refine wp_mono hdrive ?_ fun _ _ he => he
  rintro _ m' ⟨hwalked, -⟩
  have hstill : Still m m' := ⟨hwalked.phase_nil, hwalked.budget⟩
  exact ⟨hstill.fitting hwalked.setup h, hstill⟩

section

variable {ε : SchedulerError → SchedMachine → Prop} {Q : List TransitionEvent → SchedMachine → Prop}

theorem wp_pass1_append {before after : List JobId} :
    wp (handle w) 0 (pass1 dag (before ++ after) transitions) Q ε m ↔
      wp (handle w) 0 (pass1 dag before transitions)
        (fun transitions' m' => wp (handle w) 0 (pass1 dag after transitions') Q ε m') ε m := by
  induction before generalizing m transitions with
  | nil => exact Iff.rfl
  | cons id before ih =>
    rw [List.cons_append, pass1, pass1]
    refine wp_perform_bind.trans (Iff.trans ?_ wp_perform_bind.symm)
    rw [wp_bind, wp_bind]
    simp only [ih]

end

/-- PASS 1 does nothing to jobs at their end. -/
theorem wp_pass1_still (wave : List JobId) (h : Fitting verdict m)
    (hterminal : ∀ id ∈ wave, (m.state.phase id).isTerminal = true) :
    wp (handle w) 0 (pass1 dag wave transitions) (fun _ m' => Fitting verdict m' ∧ Still m m')
      (fun _ _ => False) m := by
  induction wave generalizing m transitions with
  | nil => exact ⟨h, fun _ => rfl, rfl⟩
  | cons id wave ih =>
    obtain ⟨hid, hrest⟩ := List.forall_mem_cons.mp hterminal
    apply wp_perform_bind.mpr
    set m₁ := m.step (handle w) 0 (.seed id) with hm₁
    have hstill₁ : Still m m₁ := still_seed id m
    have h₁ : Fitting verdict m₁ := hstill₁.fitting ⟨rfl, rfl, rfl, rfl⟩ h
    apply wp_bind.mpr
    refine wp_mono (wp_drive_still h₁ (hstill₁.phase id ▸ hid) 6) ?_ fun _ _ he => he
    rintro transitions₂ m₂ ⟨h₂, hstill₂⟩
    have hstill := hstill₁.trans hstill₂
    refine wp_mono (ih h₂ fun id' hid' => hstill.phase id' ▸ hrest id' hid') ?_ fun _ _ he => he
    rintro _ m' ⟨h', hstill'⟩
    exact ⟨h', hstill.trans hstill'⟩

theorem wp_pass3_still (wave : List JobId) (h : Fitting verdict m)
    (hterminal : ∀ id ∈ wave, (m.state.phase id).isTerminal = true) :
    wp (handle w) 0 (pass3 dag wave transitions) (fun _ m' => Fitting verdict m' ∧ Still m m')
      (fun _ _ => False) m := by
  induction wave generalizing m transitions with
  | nil => exact ⟨h, fun _ => rfl, rfl⟩
  | cons id wave ih =>
    obtain ⟨hid, hrest⟩ := List.forall_mem_cons.mp hterminal
    apply wp_bind.mpr
    refine wp_mono (wp_drive_still h hid 3) ?_ fun _ _ he => he
    rintro transitions₁ m₁ ⟨h₁, hstill₁⟩
    refine wp_mono (ih h₁ fun id' hid' => hstill₁.phase id' ▸ hrest id' hid') ?_ fun _ _ he => he
    rintro _ m' ⟨h', hstill'⟩
    exact ⟨h', hstill₁.trans hstill'⟩

/-- PASS 2 does nothing when no job of the wave is Running. -/
theorem wp_pass2_still (h : Fitting verdict m) (hidle : ∀ id ∈ wave, m.state.phase id ≠ .running) :
    wp (handle w) 0 (pass2 wave transitions) (fun _ m' => Fitting verdict m' ∧ Still m m')
      (fun _ _ => False) m := by
  have hnone : m.state.runningOf wave = [] := List.eq_nil_iff_forall_not_mem.mpr fun id hid =>
    hidle id (InProcessScheduler.mem_runningOf.mp hid).1 (InProcessScheduler.mem_runningOf.mp hid).2
  have hanswer : (handle w (.runningOf wave) m.state).1 = [] := hnone
  apply wp_perform_bind.mpr
  rw [hanswer]
  have hstill : Still m (m.step (handle w) 0 (.runningOf wave)) := ⟨fun _ => rfl, rfl⟩
  exact ⟨hstill.fitting ⟨rfl, rfl, rfl, rfl⟩ h, hstill⟩

/-- PASS 1 starts a job that nothing holds back, as the jobs before it are at their end. -/
theorem wp_pass1_starts {before after : List JobId} (h : InOrder verdict m)
    (hbefore : ∀ id ∈ before, (m.state.phase id).isTerminal = true)
    (hterminal : (m.state.phase id).isTerminal = false) (hrunning : m.state.phase id ≠ .running)
    (hsupported : Supported dag m.state id) (hslack : m.state.budget.HasSlack id) :
    wp (handle w) 0 (pass1 dag (before ++ id :: after) transitions)
      (fun _ m' => m'.state.phase id = .running) (fun e _ => e.refusal) m := by
  apply wp_pass1_append.mpr
  refine wp_mono (wp_pass1_still before h.toFitting hbefore) ?_ fun _ _ he => he.elim
  rintro transitions₁ m₁ ⟨h₁, hstill₁⟩
  apply wp_perform_bind.mpr
  set m₂ := m₁.step (handle w) 0 (.seed id) with hm₂
  have h₂ : Fitting verdict m₂ := (still_seed id m₁).fitting ⟨rfl, rfl, rfl, rfl⟩ h₁
  have hstill : Still m m₂ := hstill₁.trans (still_seed id m₁)
  have hdrive := wp_drive_plain (w := w) dag id h₂.plain 6 transitions₁ (h₂.not_retrying id)
  rw [decide_eq_true (hstill.supported.mpr hsupported), decide_eq_true (hstill.budget.symm ▸ hslack),
    hstill.phase] at hdrive
  apply wp_bind.mpr
  refine wp_mono hdrive ?_ fun _ _ he => he.elim
  rintro transitions₃ m₃ ⟨hwalked, -⟩
  have hstarted : m₃.state.phase id = .running := by
    rw [hwalked.phase_self, hstill.phase]
    exact (h.suits id).settle_running (h.calm id) hterminal hrunning
  refine wp_mono (wp_drives (issues_pass1 dag after transitions₃)) (fun _ m₄ hdrove => ?_)
    fun _ _ he => he.1
  rw [hdrove.others id (.inr (.inl hstarted))]
  exact hstarted

/-- A wave whose jobs are all at their end passes by. -/
theorem wp_runWaves_still (wave : List JobId) {waves : List (List JobId)} {transitions : List TransitionEvent}
    {ε : SchedulerError → SchedMachine → Prop} {Q : List TransitionEvent → SchedMachine → Prop}
    (h : Fitting verdict m) (hterminal : ∀ id ∈ wave, (m.state.phase id).isTerminal = true)
    (hrest : ∀ transitions' m', Fitting verdict m' → Still m m' →
      wp (handle w) 0 (runWaves dag waves transitions') Q ε m') :
    wp (handle w) 0 (runWaves dag (wave :: waves) transitions) Q ε m := by
  apply wp_bind.mpr
  refine wp_mono (wp_pass1_still wave h hterminal) ?_ fun _ _ he => he.elim
  rintro transitions₁ m₁ ⟨h₁, hstill₁⟩
  have hidle : ∀ id ∈ wave, m₁.state.phase id ≠ .running := fun id hid hrunning => by
    have hend := hstill₁.phase id ▸ hterminal id hid
    rw [hrunning] at hend
    cases hend
  apply wp_bind.mpr
  refine wp_mono (wp_pass2_still h₁ hidle) ?_ fun _ _ he => he.elim
  rintro transitions₂ m₂ ⟨h₂, hstill₂⟩
  have hstill := hstill₁.trans hstill₂
  apply wp_bind.mpr
  refine wp_mono (wp_pass3_still wave h₂ fun id hid => hstill.phase id ▸ hterminal id hid) ?_
    fun _ _ he => he.elim
  rintro transitions₃ m₃ ⟨h₃, hstill₃⟩
  exact hrest transitions₃ m₃ h₃ (hstill.trans hstill₃)

/-- A wave ends the job that nothing holds back, as the jobs before it are at their end. -/
theorem wp_runWaves_starts {before after : List JobId} {waves : List (List JobId)}
    {transitions : List TransitionEvent} (h : InOrder verdict m)
    (hnodup : ((before ++ id :: after) :: waves).flatten.Nodup)
    (hbefore : ∀ id ∈ before, (m.state.phase id).isTerminal = true)
    (hterminal : (m.state.phase id).isTerminal = false) (hrunning : m.state.phase id ≠ .running)
    (hsupported : Supported dag m.state id) (hslack : m.state.budget.HasSlack id) :
    wp (handle w) 0 (runWaves dag ((before ++ id :: after) :: waves) transitions)
      (fun _ m' => (m'.state.phase id).isTerminal = true) (fun e _ => e.refusal) m := by
  obtain ⟨hwave, hrest, -⟩ := List.nodup_append'.mp (List.flatten_cons ▸ hnodup)
  apply wp_bind.mpr
  refine wp_mono (wp_and (wp_pass1_starts h hbefore hterminal hrunning hsupported hslack)
    (wp_pass1_inOrder _ h)) ?_ fun _ _ he => he.1
  rintro transitions₁ m₁ ⟨hstarted, h₁⟩
  apply wp_bind.mpr
  refine wp_mono (wp_bind.mp (wp_execute dag hwave h₁)) (fun transitions₂ m₂ hpass3 => ?_)
    fun _ _ he => he.elim
  apply wp_bind.mpr
  refine wp_mono hpass3 ?_ fun _ _ he => he.elim
  rintro transitions₃ m₃ ⟨h₃, hprogressed⟩
  have hended := hprogressed.ended id (by simp) hstarted
  refine wp_mono (wp_runWaves_progressed hrest h₃) ?_ fun _ _ he => he.elim
  rintro _ m' ⟨-, hprogressed'⟩
  rw [hprogressed'.others id (.inr hended)]
  exact hended

/-- The first job of a wave that is not at its end. -/
theorem exists_first_left {state : InProcessScheduler}
    (hleft : ¬ ∀ id ∈ wave, (state.phase id).isTerminal = true) :
    ∃ id before after, wave = before ++ id :: after ∧
      (∀ id ∈ before, (state.phase id).isTerminal = true) ∧ (state.phase id).isTerminal = false := by
  cases hfind : wave.find? fun id => !(state.phase id).isTerminal with
  | none => exact absurd (fun id hid => by simpa using List.find?_eq_none.mp hfind id hid) hleft
  | some id =>
    obtain ⟨hopen, before, after, hsplit, hbefore⟩ := List.find?_eq_some_iff_append.mp hfind
    exact ⟨id, before, after, hsplit, fun id hid => by simpa using hbefore id hid, by simpa using hopen⟩

/-- **When nothing is Running and every slot is free, the waves end a job** that was not at its end. -/
theorem wp_runWaves_first {waves : List (List JobId)} {done : JobId → Prop}
    (transitions : List TransitionEvent) (hlayered : dag.Layered done waves)
    (hnodup : waves.flatten.Nodup) (h : InOrder verdict m)
    (hdone : ∀ id, done id → (m.state.phase id).isTerminal = true)
    (hidle : ∀ id, m.state.phase id ≠ .running) (hslack : ∀ id, m.state.budget.HasSlack id)
    (hleft : ∃ id ∈ waves.flatten, (m.state.phase id).isTerminal = false) :
    wp (handle w) 0 (runWaves dag waves transitions)
      (fun _ m' => ∃ id ∈ waves.flatten, (m.state.phase id).isTerminal = false ∧
        (m'.state.phase id).isTerminal = true)
      (fun e _ => e.refusal) m := by
  induction waves generalizing m transitions done with
  | nil =>
    obtain ⟨id, hid, -⟩ := hleft
    exact absurd hid List.not_mem_nil
  | cons wave waves ih =>
    by_cases hall : ∀ id ∈ wave, (m.state.phase id).isTerminal = true
    · -- nothing happens in this wave
      rw [List.flatten_cons] at hnodup hleft ⊢
      refine wp_runWaves_still wave h.toFitting hall fun transitions' m₁ h₁ hstill => ?_
      have hdone₁ : ∀ id, done id ∨ id ∈ wave → (m₁.state.phase id).isTerminal = true := fun id hid => by
        rw [hstill.phase]
        exact hid.elim (hdone id) (hall id)
      have hleft₁ : ∃ id ∈ waves.flatten, (m₁.state.phase id).isTerminal = false := by
        obtain ⟨id, hid, hopen⟩ := hleft
        refine ⟨id, (List.mem_append.mp hid).resolve_left fun hmem => ?_, hstill.phase id ▸ hopen⟩
        rw [hall id hmem] at hopen
        cases hopen
      have hrest := (List.nodup_append'.mp hnodup).2.1
      refine wp_mono (ih transitions' hlayered.2 hrest ⟨h₁, fun id => hstill.phase id ▸ h.calm id⟩ hdone₁
        (fun id => hstill.phase id ▸ hidle id) (fun id => hstill.budget.symm ▸ hslack id) hleft₁) ?_
        fun _ _ he => he
      rintro _ m' ⟨id, hid, hopen, hended⟩
      exact ⟨id, List.mem_append_right _ hid, hstill.phase id ▸ hopen, hended⟩
    · -- the first job of the wave that is left
      obtain ⟨id, before, after, rfl, hbefore, hopen⟩ := exists_first_left hall
      have hmem : id ∈ before ++ id :: after := by simp
      have hsupported : Supported dag m.state id := fun pred hpred =>
        hdone pred (hlayered.1 id hmem pred hpred)
      refine wp_mono (wp_runWaves_starts h hnodup hbefore hopen (hidle id) hsupported (hslack id))
        (fun _ m' hended => ?_) fun _ _ he => he
      exact ⟨id, List.mem_flatten.mpr ⟨_, List.mem_cons_self, hmem⟩, hopen, hended⟩

/-! ## Ticks -/

/-- **What a tick does** when nothing but the budget can hold a job back: if some job of the graph is
left, one that was left ends. -/
theorem wp_tick_progress (hbuilt : dag.Built) (hsort : w.toposort.Sorts dag.graph)
    (hacyclic : ¬ dag.Cyclic) (h : InOrder verdict m)
    (houtside : ∀ id, id ∉ dag.graph.ids → m.state.phase id = .pending)
    (hslack : (∀ id, m.state.phase id ≠ .running) → ∀ id, m.state.budget.HasSlack id) :
    wp (handle w) 0 (tick dag)
      (fun _ m' => InOrder verdict m' ∧ Progressed dag.graph.ids m m' ∧
        ((∃ id ∈ dag.graph.ids, (m.state.phase id).isTerminal = false) →
          ∃ id ∈ dag.graph.ids, (m.state.phase id).isTerminal = false ∧
            (m'.state.phase id).isTerminal = true))
      (fun e _ => e.refusal) m := by
  refine wp_tick_acyclic hbuilt hsort hacyclic fun ws hlayered hperm hnodup => ?_
  set m₁ := (m.step (handle w) 0 .now).step (handle w) 0 (.waves dag) with hm₁
  have h₁ : InOrder verdict m₁ := ⟨⟨h.plain, h.yields, h.suits⟩, h.calm⟩
  have hprogress : wp (handle w) 0 (runWaves dag ws [])
      (fun _ m' => InOrder verdict m' ∧ Progressed dag.graph.ids m m') (fun e _ => e.refusal) m₁ := by
    refine wp_mono (wp_runWaves_progressed hnodup h₁) ?_ fun _ _ he => he.elim
    rintro _ m' ⟨h', hprogressed⟩
    refine ⟨h', fun id hid => hprogressed.others id ?_, fun id hid => hprogressed.ended id ?_⟩
    · exact hid.imp_left fun hnot hmem => hnot (hperm.mem_iff.mp hmem)
    · exact hperm.mem_iff.mpr hid
  by_cases hrunning : ∃ id, m.state.phase id = .running
  · -- a job that is Running now ends in its wave
    obtain ⟨id, hid⟩ := hrunning
    have hnode : id ∈ dag.graph.ids := by
      by_contra hnot
      rw [houtside id hnot] at hid
      cases hid
    refine wp_mono hprogress ?_ fun _ _ he => he
    rintro _ m' ⟨h', hprogressed⟩
    refine ⟨⟨⟨h'.plain, h'.yields, h'.suits⟩, h'.calm⟩, ⟨hprogressed.others, hprogressed.ended⟩, fun _ => ?_⟩
    exact ⟨id, hnode, by rw [hid]; rfl, hprogressed.ended id hnode hid⟩
  · have hidle : ∀ id, m.state.phase id ≠ .running := fun id hid => hrunning ⟨id, hid⟩
    by_cases hleft : ∃ id ∈ ws.flatten, (m.state.phase id).isTerminal = false
    · -- with no job Running there is a free slot for the first job that is left
      have hfirst := wp_runWaves_first (w := w) (m := m₁) [] hlayered hnodup h₁
        (fun id hid => hid.elim) hidle (hslack hidle) hleft
      refine wp_mono (wp_and hprogress hfirst) ?_ fun _ _ he => he.1
      rintro _ m' ⟨⟨h', hprogressed⟩, id, hid, hopen, hended⟩
      exact ⟨⟨⟨h'.plain, h'.yields, h'.suits⟩, h'.calm⟩, ⟨hprogressed.others, hprogressed.ended⟩, fun _ =>
        ⟨id, hperm.mem_iff.mp hid, hopen, hended⟩⟩
    · refine wp_mono hprogress ?_ fun _ _ he => he
      rintro _ m' ⟨h', hprogressed⟩
      refine ⟨⟨⟨h'.plain, h'.yields, h'.suits⟩, h'.calm⟩, ⟨hprogressed.others, hprogressed.ended⟩, ?_⟩
      rintro ⟨id, hid, hopen⟩
      exact absurd ⟨id, hperm.mem_iff.mpr hid, hopen⟩ hleft

/-- The calls that register something work on the shared state only. -/
theorem state_of_registers {setup : List Call} (hsetup : ∀ call ∈ setup, call.registers = true)
    (hsame : m₁.state.state = m.state.state) :
    (runCalls w setup m₁).state.state = (runCalls w setup m).state.state := by
  induction setup generalizing m m₁ with
  | nil => exact hsame
  | cons call setup ih =>
    obtain ⟨hcall, hrest⟩ := List.forall_mem_cons.mp hsetup
    refine ih (m := (call.prog.exec (handle w) 0 m).2) hrest ?_
    cases call with
    | registerJob job => exact congrArg (fun state : SchedulerState => { state with
        phases := seedPhase state.phases job.id
        jobs := state.jobs.insert job.id job }) hsame
    | registerGate kind gate => exact congrArg (fun state : SchedulerState => { state with
        gates := state.gates.insert kind ((state.gates.get? kind).getD [] ++ [gate]) }) hsame
    | registerRetryPolicy kind policy => exact congrArg (fun state : SchedulerState => { state with
        retryPolicies := state.retryPolicies.insert kind policy }) hsame
    | setTimeout id timeout => exact congrArg (fun state : SchedulerState => { state with
        timeouts := state.timeouts.insert id timeout }) hsame
    | _ => exact Bool.noConfusion hcall

/-! ## The result -/

/-- One more element satisfies `q` than `p`, at least. -/
theorem countP_lt {l : List JobId} {p q : JobId → Bool} (hpq : ∀ id ∈ l, p id = true → q id = true)
    (hid : id ∈ l) (hp : p id = false) (hq : q id = true) : l.countP p < l.countP q := by
  obtain ⟨before, after, rfl⟩ := List.append_of_mem hid
  have hbefore : before.countP p ≤ before.countP q :=
    List.countP_mono_left fun id hid => hpq id (List.mem_append_left _ hid)
  have hafter : after.countP p ≤ after.countP q :=
    List.countP_mono_left fun id hid => hpq id (List.mem_append_right _ (List.mem_cons_of_mem _ hid))
  rw [List.countP_append, List.countP_append, List.countP_cons_of_neg (by simp [hp]),
    List.countP_cons_of_pos hq]
  omega

/-- How many jobs of the graph are at their end. -/
def InProcessScheduler.endedOf (s : InProcessScheduler) (dag : Dag) : Nat :=
  dag.graph.ids.countP fun id => (s.phase id).isTerminal

/-- Between two ticks on one graph: all jobs are in order, and only jobs of the graph have moved. -/
structure Ticking (verdict : JobId → ExecResult) (dag : Dag) (m : SchedMachine) : Prop
    extends InOrder verdict m where
  outside : ∀ id, id ∉ dag.graph.ids → m.state.phase id = .pending

/-- **Each tick that finds a job left ends one more.** -/
theorem Ticking.tick (h : Ticking verdict dag m) (hbuilt : dag.Built)
    (hsort : w.toposort.Sorts dag.graph) (hacyclic : ¬ dag.Cyclic)
    (hslack : (∀ id, m.state.phase id ≠ .running) → ∀ id, m.state.budget.HasSlack id) :
    let m' := ((Shigoto.tick dag).exec (handle w) 0 m).2
    Ticking verdict dag m' ∧ m.state.endedOf dag ≤ m'.state.endedOf dag ∧
      ((∃ id ∈ dag.graph.ids, (m.state.phase id).isTerminal = false) →
        m.state.endedOf dag < m'.state.endedOf dag) := by
  intro m'
  have hspec := wp_iff_exec.mp (wp_tick_progress hbuilt hsort hacyclic h.toInOrder h.outside hslack)
  cases hend : ((Shigoto.tick dag).exec (handle w) 0 m).1 with
  | error e => exact absurd (hspec.2 e hend) (tick_not_refused dag m e hend)
  | ok receipt =>
    obtain ⟨h', hprogressed, hleft⟩ := hspec.1 receipt hend
    have hkept : ∀ id ∈ dag.graph.ids, (m.state.phase id).isTerminal = true →
        (m'.state.phase id).isTerminal = true := fun id _ hid => by
      rwa [hprogressed.others id (.inr hid)]
    refine ⟨⟨h', fun id hid => (hprogressed.others id (.inl hid)).trans (h.outside id hid)⟩,
      List.countP_mono_left hkept, fun hopen => ?_⟩
    obtain ⟨id, hid, hbefore, hafter⟩ := hleft hopen
    exact countP_lt hkept hid hbefore hafter

/-- A budget with room for one job anywhere has room for every job when none is Running. -/
theorem WithinBudget.slack_of_idle {cap : Dim → Option UInt32} (h : WithinBudget w cap m)
    (hrest : Resting w m) (hcaps : ∀ d c, cap d = some c → 1 ≤ c)
    (hidle : ∀ id, m.state.phase id ≠ .running) (id : JobId) : m.state.budget.HasSlack id := by
  intro d _ c hc
  have hcounter := h.counters hrest d (.inl (by simp [hc]))
  rw [m.state.countRunning_eq, InProcessScheduler.running_eq_zero hidle] at hcounter
  have hpositive := UInt32.le_iff_toNat_le.mp (hcaps d c (h.caps ▸ hc))
  rw [UInt32.lt_iff_toNat_lt, hcounter]
  exact hpositive

/-- After the registrations every job is Pending. -/
theorem Ticking.start (w : World) (tool : String) (b : BudgetTree) {setup : List Call}
    (hsetup : ∀ call ∈ setup, call.registers = true) {outcome : JobId → ExecResult}
    (hplain : (runCalls w setup (InProcessScheduler.new tool).start).state.state.Plain)
    (hends : (runCalls w setup (InProcessScheduler.new tool).start).state.state.Ends outcome) :
    Ticking ((runCalls w setup (InProcessScheduler.new tool).start).state.state.verdict outcome) dag
      (runCalls w (.installBudget b :: setup) (InProcessScheduler.new tool).start) := by
  have hprepares : ∀ call ∈ Call.installBudget b :: setup, call.prepares = true :=
    List.forall_mem_cons.mpr ⟨rfl, fun call hcall => Call.prepares_of_registers (hsetup call hcall)⟩
  have hunstarted := (Unstarted.new w tool).prepared hprepares
  have hstate : (runCalls w (.installBudget b :: setup) (InProcessScheduler.new tool).start).state.state =
      (runCalls w setup (InProcessScheduler.new tool).start).state.state :=
    state_of_registers hsetup rfl
  refine ⟨⟨⟨hstate.symm ▸ hplain, hstate.symm ▸ hends.yields, fun id => ?_⟩, fun id => ?_⟩,
    fun id _ => hunstarted.phase id⟩
  · rw [hunstarted.phase]
    exact True.intro
  · rw [hunstarted.phase]
    rfl

/-- What grows at every step until it reaches `n` reaches it in `n` steps. -/
theorem min_le_of_grows {f : Nat → Nat} {n : Nat} (hmono : ∀ k, f k ≤ f (k + 1))
    (hgrows : ∀ k, f k < n → f k < f (k + 1)) (k : Nat) : min k n ≤ f k := by
  induction k with
  | zero => simp
  | succ k ih =>
    have hkept := hmono k
    by_cases hless : f k < n
    · have hgrown := hgrows k hless
      omega
    · omega

/-- **Every tick makes progress under any positive budget.** On a fresh scheduler without gates and
policies, with a budget of caps of at least one: each tick on the graph that finds a job left ends at
least one more, so after as many ticks as there are nodes all have ended, as their verdicts say and
whatever the caps are. -/
theorem ticks_progress (w : World) (tool : String) {b : BudgetTree} (hidle : b.Idle)
    (hcaps : ∀ d c, b.cap d = some c → 1 ≤ c) {setup : List Call}
    (hsetup : ∀ call ∈ setup, call.registers = true) {dag : Dag} (hbuilt : dag.Built)
    (hsort : w.toposort.Sorts dag.graph) (hacyclic : ¬ dag.Cyclic) (outcome : JobId → ExecResult) :
    let ready := (runCalls w setup (InProcessScheduler.new tool).start).state.state
    let run := fun k => runCalls w (.installBudget b :: setup ++ List.replicate k (.tick dag))
      (InProcessScheduler.new tool).start
    ready.Plain → ready.Ends outcome →
    (∀ k, (∃ id ∈ dag.graph.ids, ((run k).state.phase id).isTerminal = false) →
      (run k).state.endedOf dag < (run (k + 1)).state.endedOf dag) ∧
    ∀ k, dag.graph.ids.length ≤ k → ∀ id ∈ dag.graph.ids,
      (run k).state.phase id = ExecResult.final (ready.verdict outcome id) := by
  intro ready run hplain hends
  set fresh := (InProcessScheduler.new tool).start with hfresh
  -- the caps hold and the counters are right after any number of ticks
  have hbudget : ∀ k, WithinBudget w b.cap (run k) ∧ Resting w (run k) := by
    intro k
    have hcalls : ∀ call ∈ setup ++ List.replicate k (.tick dag), call.ordinary = true := by
      intro call hcall
      rcases List.mem_append.mp hcall with hmem | hmem
      · exact Call.ordinary_of_registers (hsetup call hmem)
      · rw [List.eq_of_mem_replicate hmem]
        rfl
    have hstart : Sequential w (fresh.step (handle w) 0 (.installBudget b)) :=
      (Sequential.start w (InProcessScheduler.new tool)).step ⟨rfl, rfl⟩
    exact runCalls_withinBudget hcalls hstart ⟨rfl, rfl⟩ (WithinBudget.install hidle tool)
  have hslack := fun k => (hbudget k).1.slack_of_idle (hbudget k).2 hcaps
  have hnext : ∀ k, run (k + 1) = ((Shigoto.tick dag).exec (handle w) 0 (run k)).2 := by
    intro k
    show runCalls w (.installBudget b :: setup ++ List.replicate (k + 1) (.tick dag)) fresh = _
    rw [List.replicate_succ', ← List.append_assoc, runCalls_append]
    exact exec_discard _ _
  have hticking : ∀ k, Ticking (ready.verdict outcome) dag (run k) := by
    intro k
    induction k with
    | zero =>
      show Ticking _ dag (runCalls w (.installBudget b :: setup ++ []) fresh)
      rw [List.append_nil]
      exact Ticking.start w tool b hsetup hplain hends
    | succ k ih =>
      rw [hnext]
      exact (ih.tick hbuilt hsort hacyclic (hslack k)).1
  have hprogress : ∀ k, (∃ id ∈ dag.graph.ids, ((run k).state.phase id).isTerminal = false) →
      (run k).state.endedOf dag < (run (k + 1)).state.endedOf dag := by
    intro k hopen
    rw [hnext]
    exact ((hticking k).tick hbuilt hsort hacyclic (hslack k)).2.2 hopen
  have hmono : ∀ k, (run k).state.endedOf dag ≤ (run (k + 1)).state.endedOf dag := fun k => by
    rw [hnext]
    exact ((hticking k).tick hbuilt hsort hacyclic (hslack k)).2.1
  have hgrows : ∀ k, (run k).state.endedOf dag < dag.graph.ids.length →
      (run k).state.endedOf dag < (run (k + 1)).state.endedOf dag := by
    intro k hless
    apply hprogress k
    by_contra hnone
    refine hless.ne (List.countP_eq_length.mpr fun id hid => ?_)
    by_contra hnot
    exact hnone ⟨id, hid, by simpa using hnot⟩
  refine ⟨hprogress, fun k hk id hid => ((hticking k).suits id).final ?_⟩
  -- after `k` ticks at least `k` jobs have ended, or all of them
  have hcount := min_le_of_grows hmono hgrows k
  have hall : (run k).state.endedOf dag = dag.graph.ids.length :=
    le_antisymm List.countP_le_length (by omega)
  exact List.countP_eq_length.mp hall id hid

theorem built_pair : Sample.pair.Built := (Dag.Built.new.ensureNode _).ensureNode _

theorem sorts_pair : Sample.byAge.Sorts Sample.pair.graph := by
  apply sorts_byAge
  have hedges : Sample.pair.graph.edges = [] := by decide
  intro i j hmem
  rw [hedges] at hmem
  cases hmem

/-- With one slot, the first tick ends `a` only, and the second one ends `b`. -/
theorem ticks_progress_pair :
    let run := fun k => runCalls Sample.agedWorld (.installBudget Sample.oneSlot :: Sample.okAndErr ++
      List.replicate k (.tick Sample.pair)) (InProcessScheduler.new "t").start
    (run 1).state.phase (Sample.jobId "b") = .running ∧
    (run 1).state.endedOf Sample.pair < (run 2).state.endedOf Sample.pair ∧
    (run 2).state.phase (Sample.jobId "b") = .deadlettered := by
  intro run
  have hacyclic : ¬ Sample.pair.Cyclic :=
    built_pair.wellFormed.acyclic_iff.mp (sorts_pair.ok_iff.mp ⟨_, rfl⟩)
  have hcaps : ∀ d c, Sample.oneSlot.cap d = some c → 1 ≤ c := by
    intro d c hc
    cases d with
    | global =>
      obtain rfl : 1 = c := Option.some.inj hc
      decide
    | kind k => cases hc
    | scope scope => cases hc
  obtain ⟨hprogress, hended⟩ := ticks_progress Sample.agedWorld "t" (fun d => by cases d <;> rfl) hcaps
    (by decide) built_pair sorts_pair hacyclic Sample.twoOutcomes plain_okAndErr ends_okAndErr
  refine ⟨by decide +kernel, hprogress 1 ⟨Sample.jobId "b", by decide +kernel, by decide +kernel⟩, ?_⟩
  exact (hended 2 (by decide +kernel) (Sample.jobId "b") (by decide +kernel)).trans (by decide +kernel)

end Shigoto
