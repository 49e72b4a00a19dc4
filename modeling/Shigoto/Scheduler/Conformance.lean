import Shigoto.Scheduler.View

/-!
# Every program keeps the protocol

One lemma per program, from the single dispatch up to `tick` and `operatorTransition`. Each says in
which view the program is started and in which view it ends. `Call.obeys` puts them together: a call
that starts between two steps ends between two steps, and issues only commands that its view allows.
-/

namespace Shigoto

open Atomic

variable {P : Call → Prop} {α : Type} {ℓ : History schedInterface} {pass : Pass}

/-- The caller is between two steps of the pass. -/
def Between (pass : Pass) (ℓ : History schedInterface) : Prop :=
  (view ℓ).pass = pass ∧ (view ℓ).focus.idle = true

/-- How a tick fails: the graph could not be sorted, or the phase table refused a signal. -/
def TickFailed : SchedulerError → History schedInterface → Prop
  | .topology _ => fun ℓ => (view ℓ).Resting
  | .illegalTransition _ => fun ℓ => (view ℓ).focus = .refused

/-- A program keeps the protocol from `ℓ` on and ends in `Q`; where it fails, it fails as a tick
does. -/
abbrev Keeps (P : Call → Prop) (Q : α → History schedInterface → Prop) (p : Sched α)
    (ℓ : History schedInterface) : Prop :=
  Obeys (callProtocol P) Q TickFailed p ℓ

/-- One command, then the rest of the program from the view that its answer leads to. -/
theorem Keeps.lock_bind {Q : α → History schedInterface → Prop} {c : Cmd} {k : c.Resp → Sched α}
    {v : View} (hv : view ℓ = v) (hallows : v.Allows c) (hpermitted : c.Permitted P v.pass.dag)
    (hk : ∀ r ℓ', c.Answers r → view ℓ' = v.next c r → Keeps P Q (k r) ℓ') :
    Keeps P Q (lock c >>= k) ℓ := by
  subst hv
  exact ⟨⟨hallows, hpermitted⟩, fun r hr => hk r _ hr rfl⟩

theorem Focus.idle_clock {focus : Focus} (h : focus.idle = true) (nowMs : DateTime) :
    (focus.clock nowMs).idle = true := by
  cases focus with
  | looked id phase => cases phase <;> rfl
  | delayed id after => rfl
  | _ => exact h

/-! ## One step of one job -/

theorem dispatch_keeps {id : JobId} {signal : Signal} {transitions : List TransitionEvent}
    {focus : Focus} (hv : view ℓ = ⟨pass, focus⟩) (hP : P (.tick pass.dag))
    (hdue : Due pass id focus signal) :
    Keeps P (fun _ ℓ' => view ℓ' = ⟨pass, focus.dispatched⟩) (dispatch id signal transitions) ℓ := by
  refine Keeps.lock_bind hv hdue hP fun r ℓ' _ hv' => ?_
  cases r with
  | ok event => exact hv'
  | error e => exact congrArg View.focus hv'

theorem consultAll_keeps {id : JobId} {phase : JobPhase} {ctx : GateContext} {gates : List Gate}
    {outcomes : List GateOutcome} (hv : view ℓ = ⟨pass, .consulting id phase ctx gates outcomes⟩)
    (hP : P (.tick pass.dag)) :
    Keeps P (fun outcomes' ℓ' => view ℓ' = ⟨pass, .consulting id phase ctx [] outcomes'⟩)
      (consultAll ctx gates outcomes) ℓ := by
  induction gates generalizing ℓ outcomes with
  | nil => exact hv
  | cons gate gates ih =>
    exact Keeps.lock_bind hv ⟨id, phase, gates, outcomes, rfl⟩ hP fun r ℓ' _ hv' => ih hv'

theorem evaluateGates_keeps {id : JobId} {phase : JobPhase}
    (hv : view ℓ = ⟨pass, .looked id phase⟩) (hP : P (.tick pass.dag))
    (hphase : phase = .pending ∨ phase = .gated) :
    Keeps P (fun aggregate ℓ' => ∃ ctx outcomes,
        view ℓ' = ⟨pass, .consulting id phase ctx [] outcomes⟩ ∧
        aggregate = cohortAggregate ctx outcomes)
      (evaluateGates id pass.dag) ℓ := by
  refine Keeps.lock_bind hv ?_ hP fun ⟨gates, snapshot⟩ ℓ' _ hv' => ?_
  · rcases hphase with rfl | rfl
    · exact .inl rfl
    · exact .inr rfl
  · refine Obeys.bind (consultAll_keeps hv' hP) fun outcomes ℓ'' hv'' => ?_
    exact ⟨_, outcomes, hv'', rfl⟩

theorem decideRetry_keeps {id : JobId} {n : UInt32}
    (hv : view ℓ = ⟨pass, .looked id (.failed n)⟩) (hP : P (.tick pass.dag)) :
    Keeps P (fun outcome ℓ' => view ℓ' = ⟨pass, .planned id outcome⟩) (decideRetry id) ℓ := by
  refine Keeps.lock_bind hv ⟨n, rfl⟩ hP fun ⟨policy, attempt, history⟩ ℓ₁ _ hv₁ => ?_
  refine Keeps.lock_bind hv₁ ⟨id, rfl⟩ hP fun decision ℓ₂ _ hv₂ => ?_
  cases decision with
  | deadletter => exact hv₂
  | retry after => exact Keeps.lock_bind hv₂ (.inl rfl) True.intro fun nowMs ℓ₃ _ hv₃ => hv₃

/-- A dispatch that is due, and then the end of the step. -/
theorem dispatch_between {id : JobId} {signal : Signal} {transitions : List TransitionEvent}
    {focus : Focus} (hv : view ℓ = ⟨pass, focus⟩) (hP : P (.tick pass.dag))
    (hdue : Due pass id focus signal) (hdone : focus.dispatched = .rest) :
    Keeps P (fun _ => Between pass)
      (do let transitions ← dispatch id signal transitions
          return (true, transitions)) ℓ := by
  refine Obeys.bind (dispatch_keeps hv hP hdue) fun transitions ℓ' hv' => ?_
  rw [hdone] at hv'
  exact ⟨by rw [hv'], by rw [hv']; rfl⟩

theorem advanceOnce_keeps {id : JobId} {source : JobPhase} {transitions : List TransitionEvent}
    (hv : view ℓ = ⟨pass, .looked id source⟩) (hP : P (.tick pass.dag))
    (hseeded : pass.final = false → id ∈ pass.seeded) :
    Keeps P (fun _ => Between pass) (advanceOnce id source pass.dag transitions) ℓ := by
  have hrest : Between pass ℓ := ⟨by rw [hv], by rw [hv]; rfl⟩
  -- the two phases in which the gates are asked take the same way
  have hgates : source = .pending ∨ source = .gated →
      Keeps P (fun _ => Between pass) (do
        let aggregate ← evaluateGates id pass.dag
        let alreadyGated := source = .gated && aggregate = .someWaiting
        if alreadyGated then return (false, transitions)
        else do
          let transitions ← dispatch id (.evaluateGates aggregate) transitions
          return (true, transitions)) ℓ := by
    intro hsource
    apply Obeys.bind (evaluateGates_keeps hv hP hsource)
    rintro aggregate ℓ' ⟨ctx, outcomes, hv', rfl⟩
    by_cases hgated : source = .gated ∧ cohortAggregate ctx outcomes = .someWaiting
    · simp only [hgated, decide_true, Bool.and_self, if_true]
      exact ⟨by rw [hv'], by rw [hv']; rfl⟩
    · have hfalse : (decide (source = .gated) &&
          decide (cohortAggregate ctx outcomes = .someWaiting)) = false := by
        simpa using hgated
      simp only [hfalse, Bool.false_eq_true, if_false]
      exact dispatch_between hv' hP (.gates source ctx outcomes hgated) rfl
  cases source with
  | pending => exact hgates (.inl rfl)
  | gated => exact hgates (.inr rfl)
  | ready =>
    refine Keeps.lock_bind hv ⟨rfl, hseeded⟩ hP fun r ℓ' _ hv' => ?_
    cases r with
    | error e => exact ⟨by rw [hv']; rfl, by rw [hv']; rfl⟩
    | ok u =>
      have hgranted : view ℓ' = ⟨pass, .granted id⟩ := hv'
      exact dispatch_between hgranted hP (.slot hseeded) rfl
  | running => exact hrest
  | succeeded => exact hrest
  | failed n =>
    refine Obeys.bind (decideRetry_keeps hv hP) fun outcome ℓ' hv' => ?_
    exact dispatch_between hv' hP (.retry outcome) rfl
  | retrying untilMs =>
    refine Keeps.lock_bind hv (.inl rfl) True.intro fun nowMs ℓ' _ hv' => ?_
    have hclock : view ℓ' = ⟨pass, .clocked id untilMs nowMs⟩ := hv'
    show Keeps P _ (if nowMs < untilMs then _ else _) _
    split
    · exact ⟨by rw [hclock], by rw [hclock]; rfl⟩
    · next hlt => exact dispatch_between hclock hP (.backoff untilMs nowMs hlt) rfl
  | skipped reason => exact hrest
  | deadlettered => exact hrest
  | waitingForOperator => exact hrest

theorem drive_keeps {id : JobId} {bound : Nat} {transitions : List TransitionEvent}
    (hv : Between pass ℓ) (hP : P (.tick pass.dag))
    (hseeded : pass.final = false → id ∈ pass.seeded) :
    Keeps P (fun _ => Between pass) (drive pass.dag id bound transitions) ℓ := by
  induction bound generalizing ℓ transitions with
  | zero => exact hv
  | succ bound ih =>
    refine Keeps.lock_bind rfl hv.2 True.intro fun source ℓ' _ hv' => ?_
    have hlooked : view ℓ' = ⟨pass, .looked id source⟩ := by
      rw [hv', ← hv.1]
      rfl
    show Keeps P _ (if source = .running then _ else _) _
    split
    · exact ⟨by rw [hlooked], by rw [hlooked]; rfl⟩
    · apply Obeys.bind (advanceOnce_keeps hlooked hP hseeded)
      rintro ⟨progressed, transitions⟩ ℓ'' hv''
      cases progressed with
      | false => exact hv''
      | true => exact ih hv''

/-! ## The three passes over a wave -/

/-- PASS 1 of a wave: the jobs come to so far belong to the wave. -/
def InWave (dag : Dag) (wave : List JobId) (ℓ : History schedInterface) : Prop :=
  (view ℓ).focus.idle = true ∧ (view ℓ).pass.dag = dag ∧
    ((view ℓ).pass.final = false → ∀ id ∈ (view ℓ).pass.seeded, id ∈ wave)

/-- PASS 2 of the wave is behind. -/
def Final (dag : Dag) (ℓ : History schedInterface) : Prop :=
  (view ℓ).focus.idle = true ∧ (view ℓ).pass.dag = dag ∧ (view ℓ).pass.final = true

theorem Final.inWave {dag : Dag} (h : Final dag ℓ) (wave : List JobId) : InWave dag wave ℓ :=
  ⟨h.1, h.2.1, fun hfinal => absurd h.2.2 (by simp [hfinal])⟩

/-- The jobs come to, with one more of the wave. -/
theorem Pass.seed_mem {wave : List JobId} {id : JobId} (hid : id ∈ wave)
    (hwave : pass.final = false → ∀ id' ∈ pass.seeded, id' ∈ wave) :
    id ∈ (pass.seed id).seeded ∧ ∀ id' ∈ (pass.seed id).seeded, id' ∈ wave := by
  cases hfinal : pass.final with
  | true => simp [Pass.seed, hfinal, hid]
  | false => simpa [Pass.seed, hfinal, hid] using hwave hfinal

theorem pass1_keeps {dag : Dag} {wave rest : List JobId} {transitions : List TransitionEvent}
    (hrest : ∀ id ∈ rest, id ∈ wave) (hP : P (.tick dag)) (hv : InWave dag wave ℓ) :
    Keeps P (fun _ => InWave dag wave) (pass1 dag rest transitions) ℓ := by
  induction rest generalizing ℓ transitions with
  | nil => exact hv
  | cons id rest ih =>
    obtain ⟨hidle, rfl, hwave⟩ := hv
    obtain ⟨hmem, hseeded⟩ := Pass.seed_mem (hrest id List.mem_cons_self) hwave
    refine Keeps.lock_bind rfl hidle hP fun r ℓ' _ hv' => ?_
    have hdrive : Keeps P (fun _ => Between ((view ℓ).pass.seed id))
        (drive ((view ℓ).pass.seed id).dag id 6 transitions) ℓ' :=
      drive_keeps ⟨by rw [hv']; rfl, by rw [hv']; rfl⟩ hP fun _ => hmem
    refine Obeys.bind hdrive fun transitions' ℓ'' hv'' => ?_
    exact ih (fun id' hid' => hrest id' (List.mem_cons_of_mem _ hid'))
      ⟨hv''.2, by rw [hv''.1]; rfl, by rw [hv''.1]; exact fun _ => hseeded⟩

theorem spawnAll_keeps {ids : List JobId} {tasks : List Task}
    (hv : view ℓ = ⟨pass, .collecting ids tasks⟩) (hP : P (.tick pass.dag)) :
    Keeps P (fun tasks' ℓ' => view ℓ' = ⟨pass, .collecting [] tasks'⟩) (spawnAll ids tasks) ℓ := by
  induction ids generalizing ℓ tasks with
  | nil => exact hv
  | cons id ids ih =>
    refine Keeps.lock_bind hv ⟨ids, tasks, rfl⟩ hP fun ⟨job, timeout⟩ ℓ₁ _ hv₁ => ?_
    exact Keeps.lock_bind hv₁ ⟨ids, tasks, rfl⟩ hP fun task ℓ₂ _ hv₂ => ih hv₂

theorem applyExecutionResult_keeps {id : JobId} {result : ExecResult}
    {results : List (JobId × ExecResult)} {transitions : List TransitionEvent}
    (hv : view ℓ = ⟨pass, .applying ((id, result) :: results)⟩) (hP : P (.tick pass.dag)) :
    Keeps P (fun _ ℓ' => view ℓ' = ⟨pass, .applying results⟩)
      (applyExecutionResult id result transitions) ℓ := by
  cases result with
  | ok u =>
    refine Obeys.bind (dispatch_keeps hv hP (.success results)) fun transitions ℓ₁ hv₁ => ?_
    refine Keeps.lock_bind hv₁ ⟨results, rfl⟩ hP fun r ℓ₂ _ hv₂ => ?_
    exact Keeps.lock_bind hv₂ ⟨results, rfl⟩ hP fun r ℓ₃ _ hv₃ => hv₃
  | error u =>
    refine Keeps.lock_bind hv ⟨results, rfl⟩ hP fun r ℓ₁ _ hv₁ => ?_
    have hrecorded : view ℓ₁ = ⟨pass, .recorded id results⟩ := hv₁
    refine Obeys.bind (dispatch_keeps hrecorded hP (.failure results)) fun transitions ℓ₂ hv₂ => ?_
    exact Keeps.lock_bind hv₂ ⟨results, rfl⟩ hP fun r ℓ₃ _ hv₃ => hv₃

theorem applyAll_keeps {results : List (JobId × ExecResult)} {transitions : List TransitionEvent}
    (hv : view ℓ = ⟨pass, .applying results⟩) (hP : P (.tick pass.dag)) :
    Keeps P (fun _ => Between pass) (applyAll results transitions) ℓ := by
  induction results generalizing ℓ transitions with
  | nil => exact ⟨by rw [hv], by rw [hv]; rfl⟩
  | cons x results ih =>
    obtain ⟨id, result⟩ := x
    exact Obeys.bind (applyExecutionResult_keeps hv hP) fun transitions ℓ' hv' => ih hv'

theorem pass2_keeps {dag : Dag} {wave : List JobId} {transitions : List TransitionEvent}
    (hnodup : wave.Nodup) (hP : P (.tick dag)) (hv : InWave dag wave ℓ) :
    Keeps P (fun _ => Final dag) (pass2 wave transitions) ℓ := by
  obtain ⟨hidle, rfl, hwave⟩ := hv
  refine Keeps.lock_bind rfl ⟨hidle, hnodup, hwave⟩ hP fun ids ℓ₁ _ hv₁ => ?_
  cases ids with
  | nil => exact ⟨by rw [hv₁]; rfl, by rw [hv₁]; rfl, by rw [hv₁]; rfl⟩
  | cons id ids =>
    have hcollecting : view ℓ₁ =
        ⟨{ (view ℓ).pass with final := true }, .collecting (id :: ids) []⟩ := hv₁
    have hexecute : Keeps P (fun results ℓ' => view ℓ' =
        ⟨{ (view ℓ).pass with final := true }, .applying results⟩)
        (executeConcurrent (id :: ids)) ℓ₁ := by
      refine Obeys.bind (spawnAll_keeps hcollecting hP) fun tasks ℓ₂ hv₂ => ?_
      exact Keeps.lock_bind hv₂ rfl hP fun results ℓ₃ _ hv₃ => hv₃
    refine Obeys.bind hexecute fun results ℓ₂ hv₂ => ?_
    refine Obeys.mono (applyAll_keeps hv₂ hP) (fun _ ℓ₃ hv₃ => ?_) fun _ _ h => h
    exact ⟨hv₃.2, by rw [hv₃.1], by rw [hv₃.1]⟩

theorem pass3_keeps {dag : Dag} {wave : List JobId} {transitions : List TransitionEvent}
    (hP : P (.tick dag)) (hv : Final dag ℓ) :
    Keeps P (fun _ => Final dag) (pass3 dag wave transitions) ℓ := by
  induction wave generalizing ℓ transitions with
  | nil => exact hv
  | cons id wave ih =>
    obtain ⟨hidle, rfl, hfinal⟩ := hv
    refine Obeys.bind (drive_keeps ⟨rfl, hidle⟩ hP fun h => ?_) fun transitions' ℓ' hv' => ?_
    · exact absurd hfinal (by simp [h])
    · exact ih ⟨hv'.2, by rw [hv'.1], by rw [hv'.1]; exact hfinal⟩

theorem runWaves_keeps {dag : Dag} {waves : List (List JobId)}
    {transitions : List TransitionEvent} (hnodup : ∀ wave ∈ waves, wave.Nodup)
    (hP : P (.tick dag)) (hv : Final dag ℓ) :
    Keeps P (fun _ => Final dag) (runWaves dag waves transitions) ℓ := by
  induction waves generalizing ℓ transitions with
  | nil => exact hv
  | cons wave waves ih =>
    refine Obeys.bind (pass1_keeps (fun id hid => hid) hP (hv.inWave wave)) fun _ ℓ₁ hv₁ => ?_
    refine Obeys.bind (pass2_keeps (hnodup wave List.mem_cons_self) hP hv₁) fun _ ℓ₂ hv₂ => ?_
    refine Obeys.bind (pass3_keeps hP hv₂) fun _ ℓ₃ hv₃ => ?_
    exact ih (fun wave' hwave' => hnodup wave' (List.mem_cons_of_mem _ hwave')) hv₃

/-! ## Calls -/

theorem Final.resting {dag : Dag} (h : Final dag ℓ) : (view ℓ).Resting := ⟨h.1, h.2.2⟩

/-- A tick that starts between two calls ends between two calls. -/
theorem tick_keeps {dag : Dag} (hP : P (.tick dag)) (hrest : (view ℓ).Resting) :
    Keeps P (fun _ ℓ' => (view ℓ').Resting) (tick dag) ℓ := by
  refine Keeps.lock_bind rfl (.inl hrest.1) True.intro fun startedAt ℓ₁ _ hv₁ => ?_
  have hrest₁ : (view ℓ₁).Resting := by
    rw [hv₁]
    exact ⟨Focus.idle_clock hrest.1 startedAt, hrest.2⟩
  refine Keeps.lock_bind rfl hrest₁ hP fun answer ℓ₂ hanswer hv₂ => ?_
  have hfinal : Final dag ℓ₂ := ⟨by rw [hv₂]; rfl, by rw [hv₂]; rfl, by rw [hv₂]; rfl⟩
  cases answer with
  | error e => exact hfinal.resting
  | ok waves =>
    have hnodup : ∀ wave ∈ waves, wave.Nodup := (List.nodup_flatten.mp (hanswer waves rfl)).1
    refine Obeys.bind (runWaves_keeps hnodup hP hfinal) fun transitions ℓ₃ hv₃ => ?_
    refine Keeps.lock_bind rfl hv₃.resting True.intro fun snapshot ℓ₄ _ hv₄ => ?_
    refine Keeps.lock_bind hv₄ ⟨rfl, hv₃.2.2⟩ True.intro fun rank ℓ₅ _ hv₅ => ?_
    exact show (view ℓ₅).Resting by rw [hv₅]; exact ⟨rfl, hv₃.2.2⟩

/-- An operator transition that is refused has not issued any write. -/
theorem operatorTransition_obeys {id : JobId} {target : JobPhase} {reason : TransitionReason}
    (hP : P (.operatorTransition id target reason)) (hrest : (view ℓ).Resting) :
    Obeys (callProtocol P) (fun _ ℓ' => (view ℓ').Resting) (fun _ ℓ' => (view ℓ').Resting)
      (operatorTransition id target reason) ℓ := by
  refine ⟨⟨hrest.1, True.intro⟩, fun source _ => ?_⟩
  show Obeys _ _ _ (operatorTransitionFrom id target reason source) _
  unfold operatorTransitionFrom
  split
  · exact ⟨rfl, hrest.2⟩
  · next phase hadvance =>
    obtain rfl := (advance_operatorTransition hadvance).1
    refine ⟨⟨⟨source, rfl, hadvance⟩, ⟨reason, hP⟩⟩, fun r _ => ?_⟩
    refine ⟨⟨.inr ⟨id, source, phase, rfl⟩, True.intro⟩, fun time _ => ?_⟩
    exact ⟨⟨rfl, True.intro⟩, fun r _ => ⟨rfl, hrest.2⟩⟩

/-- The protocol of caller `t` of `n`, which issues only calls in `P t`. -/
def callersProtocol (n : Nat) (P : Nat → Call → Prop) (t : Nat) : Protocol schedInterface where
  allows ℓ c := t < n ∧ (callProtocol (P t)).allows ℓ c
  answers := Cmd.Answers

/-- What keeps the protocol of one caller keeps that of caller `t`. -/
theorem Keeps.caller {P : Nat → Call → Prop} {n t : Nat} {Q : α → History schedInterface → Prop}
    {E : SchedulerError → History schedInterface → Prop} {p : Sched α}
    (hp : Obeys (callProtocol (P t)) Q E p ℓ) (ht : t < n) :
    Obeys (callersProtocol n P t) Q E p ℓ :=
  hp.weaken (fun _ _ hc => ⟨ht, hc⟩) fun _ _ hr => hr

/-- The program failed because the phase table refused a signal. -/
def illegal : Sched α → Bool
  | .fail (.illegalTransition _) => true
  | _ => false

/-- A failed call leaves its caller between two calls, or where the table refused a signal. -/
def CallFailed (ℓ : History schedInterface) : Prop :=
  (view ℓ).Resting ∨ (view ℓ).focus = .refused

theorem TickFailed.callFailed {e : SchedulerError} (h : TickFailed e ℓ) : CallFailed ℓ := by
  cases e with
  | topology e => exact .inl h
  | illegalTransition e => exact .inr h

/-- **Every call keeps the protocol** and ends between two calls. -/
theorem Call.obeys {call : Call} (hP : P call) (hrest : (view ℓ).Resting) :
    Obeys (callProtocol P) (fun _ ℓ' => (view ℓ').Resting) (fun _ => CallFailed) call.prog ℓ := by
  cases call with
  | tick dag =>
    refine Obeys.bind (Obeys.mono (tick_keeps hP hrest) (fun _ _ h => h) fun e ℓ' h => ?_) ?_
    · exact TickFailed.callFailed h
    · exact fun _ ℓ' h => h
  | operatorTransition id target reason =>
    exact Obeys.mono (operatorTransition_obeys hP hrest) (fun _ _ h => h) fun _ _ h => .inl h
  | snapshotState => exact ⟨⟨hrest, True.intro⟩, fun _ _ => ⟨rfl, hrest.2⟩⟩
  | snapshot => exact ⟨⟨hrest, True.intro⟩, fun _ _ => ⟨rfl, hrest.2⟩⟩
  | _ => exact ⟨⟨hrest, hP⟩, fun _ _ => ⟨rfl, hrest.2⟩⟩

end Shigoto
