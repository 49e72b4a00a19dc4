import Shigoto.Atomic.Related
import Shigoto.Scheduler.Tick

/-!
# Linked ticks

Two schedulers that a tick cannot tell apart as far as the jobs of its graph go. A link between their
commands `Connects` them for a graph if each command of a tick has a counterpart that is answered in a
corresponding way, whenever it concerns jobs that are `mine` only. Then the two ticks go through the same
(`Connects.tick`), whatever the two schedulers are: it is all that has to be known of the programs.
-/

namespace Shigoto

open Atomic

/-! ## Budgets with the same free slots -/

/-- The same caps, and the same counters wherever there is a cap among `dims`. -/
structure BudgetTree.Level (dims : Dim → Prop) (b b' : BudgetTree) : Prop where
  cap : b'.cap = b.cap
  counter : ∀ d c, dims d → b.cap d = some c → b'.counter d = b.counter d

namespace BudgetTree.Level

variable {dims : Dim → Prop} {b b' : BudgetTree} {id : JobId}

theorem refl (dims : Dim → Prop) (b : BudgetTree) : b.Level dims b := ⟨rfl, fun _ _ _ _ => rfl⟩

theorem hasSlack (h : b.Level dims b') (hid : ∀ d, d.covers id = true → dims d) :
    b'.HasSlack id ↔ b.HasSlack id := by
  unfold HasSlack
  rw [h.cap]
  refine forall_congr' fun d => forall_congr' fun hcovers => forall_congr' fun c => ?_
  constructor
  · exact fun hlt hc => h.counter d c (hid d hcovers) hc ▸ hlt hc
  · exact fun hlt hc => (h.counter d c (hid d hcovers) hc).symm ▸ hlt hc

/-- A counter below its cap does not overflow. -/
theorem counter_lt {d : Dim} {c : UInt32} (hc : b.cap d = some c) (hfirst : (b.tryAllocate id).1 = .ok ())
    (hcovers : d.covers id = true) : (b.counter d).toNat + 1 < 4294967296 := by
  have hlt := UInt32.lt_iff_toNat_lt.mp ((tryAllocate_ok_iff b id).mp hfirst d hcovers c hc)
  have := c.toNat_lt
  omega

theorem tryAllocate (h : b.Level dims b') (id : JobId) (hid : ∀ d, d.covers id = true → dims d) :
    ((b'.tryAllocate id).1 = .ok () ↔ (b.tryAllocate id).1 = .ok ()) ∧
      (b.tryAllocate id).2.Level dims (b'.tryAllocate id).2 := by
  have hanswer : (b'.tryAllocate id).1 = .ok () ↔ (b.tryAllocate id).1 = .ok () := by
    rw [tryAllocate_ok_iff, tryAllocate_ok_iff, h.hasSlack hid]
  refine ⟨hanswer, by rw [cap_tryAllocate, cap_tryAllocate, h.cap], fun d c hd hc => ?_⟩
  rw [cap_tryAllocate] at hc
  cases hfirst : (b.tryAllocate id).1 with
  | error e =>
    cases hsecond : (b'.tryAllocate id).1 with
    | error e' =>
      rw [tryAllocate_error hfirst, tryAllocate_error hsecond]
      exact h.counter d c hd hc
    | ok u => rw [hanswer.mp hsecond] at hfirst; cases hfirst
  | ok u =>
    have hsecond := hanswer.mpr hfirst
    have hroom := fun hcovers => counter_lt hc hfirst hcovers
    apply UInt32.toNat_inj.mp
    rw [counter_tryAllocate hsecond d (h.counter d c hd hc ▸ hroom), counter_tryAllocate hfirst d hroom,
      h.counter d c hd hc]

theorem release (h : b.Level dims b') (id : JobId) : (b.release id).Level dims (b'.release id) := by
  refine ⟨by rw [cap_release, cap_release, h.cap], fun d c hd hc => ?_⟩
  apply UInt32.toNat_inj.mp
  rw [counter_release, counter_release, h.counter d c hd hc]

/-- A slot that no cap among `dims` counts is taken on one side. -/
theorem tryAllocate_left (h : b.Level dims b')
    (hid : ∀ d, dims d → (b.cap d).isSome = true → d.covers id = false) :
    (b.tryAllocate id).2.Level dims b' := by
  refine ⟨by rw [cap_tryAllocate, h.cap], fun d c hd hc => ?_⟩
  rw [cap_tryAllocate] at hc
  rw [h.counter d c hd hc]
  cases hfirst : (b.tryAllocate id).1 with
  | error e => rw [tryAllocate_error hfirst]
  | ok u =>
    have hcovers := hid d hd (hc ▸ rfl)
    apply UInt32.toNat_inj.mp
    rw [counter_tryAllocate hfirst d fun hcovers' => Bool.noConfusion (hcovers.symm.trans hcovers'), hcovers]
    rfl

/-- It is given back. -/
theorem release_left (h : b.Level dims b')
    (hid : ∀ d, dims d → (b.cap d).isSome = true → d.covers id = false) : (b.release id).Level dims b' := by
  refine ⟨by rw [cap_release, h.cap], fun d c hd hc => ?_⟩
  rw [cap_release] at hc
  apply UInt32.toNat_inj.mp
  rw [counter_release, hid d hd (hc ▸ rfl), h.counter d c hd hc]
  rfl

end BudgetTree.Level

/-! ## What the two agree on -/

/-- The phases of the jobs that are `mine` are the same in both. -/
def Snapshot.Agree (mine : JobId → Prop) (snapshot snapshot' : Snapshot) : Prop :=
  ∀ id, mine id → Map.get? snapshot'.phases id = Map.get? snapshot.phases id

structure GateContext.Agree (mine : JobId → Prop) (ctx ctx' : GateContext) : Prop where
  jobId : ctx'.jobId = ctx.jobId
  dag : ctx'.dag = ctx.dag
  snapshot : ctx.snapshot.Agree mine ctx'.snapshot

/-- Commands about jobs that are `mine` which are passed nothing that one of the two could have of its own. -/
def Cmd.about (mine : JobId → Prop) : Cmd → Prop
  | .now => True
  | .seed id | .phaseOf id | .dispatch id _ | .clearFailures id | .recordFailure id | .release id => mine id
  | _ => False

/-- The receipts of linked ticks. -/
structure TickReceipt.Linked (mine : JobId → Prop) (receipt receipt' : TickReceipt) : Prop where
  tickAt : receipt'.tickAt = receipt.tickAt
  transitionsThisTick : receipt'.transitionsThisTick = receipt.transitionsThisTick
  /-- What they say about all jobs is taken from snapshots that agree. -/
  snapshots : ∃ snapshot snapshot' : Snapshot, snapshot.Agree mine snapshot' ∧
    receipt.phaseCounts = snapshot.phaseCounts ∧ receipt'.phaseCounts = snapshot'.phaseCounts ∧
    (∃ rank spelling, receipt.unhealed = collectUnhealed rank spelling snapshot.phases) ∧
    ∃ rank spelling, receipt'.unhealed = collectUnhealed rank spelling snapshot'.phases

/-- The upstreams of a job are judged by their phases. -/
theorem cohortAggregate_agree {mine : JobId → Prop} {ctx ctx' : GateContext} (h : ctx.Agree mine ctx')
    (hpreds : ∀ pred ∈ ctx.dag.predecessors ctx.jobId, mine pred) (outcomes : List GateOutcome) :
    cohortAggregate ctx' outcomes = cohortAggregate ctx outcomes := by
  have hexamine : ∀ preds : List JobId, (∀ pred ∈ preds, mine pred) → ∀ examined,
      AllUpstreamsTerminal.examine ctx'.snapshot examined preds =
        AllUpstreamsTerminal.examine ctx.snapshot examined preds := by
    intro preds hmine
    induction preds with
    | nil => exact fun _ => rfl
    | cons pred preds ih =>
      intro examined
      obtain ⟨hpred, hrest⟩ := List.forall_mem_cons.mp hmine
      have hphase : phaseIn ctx'.snapshot.phases pred = phaseIn ctx.snapshot.phases pred :=
        congrArg (Option.getD · JobPhase.pending) (h.snapshot pred hpred)
      rw [AllUpstreamsTerminal.examine, AllUpstreamsTerminal.examine, hphase, ih hrest]
  unfold cohortAggregate AllUpstreamsTerminal.evaluate
  rw [h.dag, h.jobId, hexamine _ hpreds]

theorem get?_seedPhase (phases : Map JobId JobPhase) (id : JobId) :
    Map.get? (seedPhase phases id) =
      modifyAt (Map.get? phases) id fun phase => some (phase.getD .pending) := by
  funext id'
  rw [modifyAt_apply]
  unfold seedPhase
  cases hget : Map.get? phases id with
  | none => exact Map.get?_insert phases id id' .pending
  | some phase =>
    by_cases hid : id' = id
    · rw [if_pos hid, hid]
      exact hget
    · rw [if_neg hid]

/-! ## What connects them -/

/-- The link answers the commands of a tick on `dag` in corresponding ways, where `G`, `P` and `J` say which
gates, policies and jobs correspond. -/
structure Connects (L : Link schedInterface) (dag : Dag) (mine : JobId → Prop) (G : Gate → Gate → Prop)
    (P : RetryPolicy → RetryPolicy → Prop) (J : ErasedJob → ErasedJob → Prop) : Prop where
  preds : ∀ id, mine id → ∀ pred ∈ dag.predecessors id, mine pred
  plain : ∀ c : Cmd, c.about mine → Answers L c c fun r r' => r' = r
  waves : Answers L (.waves dag) (.waves dag) fun r r' => r' = r ∧
    ∀ ws, r = .ok ws → ∀ wave ∈ ws, ∀ id ∈ wave, mine id
  readGates : ∀ id, mine id → Answers L (.readGates id) (.readGates id) fun r r' =>
    List.Forall₂ G r.1 r'.1 ∧ r.2.Agree mine r'.2
  consult : ∀ gate gate' ctx ctx', G gate gate' → ctx.dag = dag → ctx.Agree mine ctx' →
    Answers L (.consult gate ctx) (.consult gate' ctx') fun r r' => r' = r
  tryAllocate : ∀ id, mine id → Answers L (.tryAllocate id) (.tryAllocate id) fun r r' =>
    r' = .ok () ↔ r = .ok ()
  readRetry : ∀ id, mine id → Answers L (.readRetry id) (.readRetry id) fun r r' =>
    P r.1 r'.1 ∧ r'.2 = r.2
  decide : ∀ policy policy' attempt history, P policy policy' →
    Answers L (.decide policy attempt history) (.decide policy' attempt history) fun r r' => r' = r
  runningOf : ∀ wave, (∀ id ∈ wave, mine id) → Answers L (.runningOf wave) (.runningOf wave) fun r r' =>
    r' = r ∧ ∀ id ∈ r, mine id
  lookupJob : ∀ id, mine id → Answers L (.lookupJob id) (.lookupJob id) fun r r' =>
    Option.Rel J r.1 r'.1 ∧ r'.2 = r.2
  spawn : ∀ id job job' timeout, mine id → Option.Rel J job job' →
    Answers L (.spawn id job timeout) (.spawn id job' timeout) fun r r' => r' = r ∧ mine r.id
  join : ∀ tasks : List Task, (∀ task ∈ tasks, mine task.id) →
    Answers L (.join tasks) (.join tasks) fun r r' => r' = r ∧ ∀ x ∈ r, mine x.1
  snapshotInner : Answers L .snapshotInner .snapshotInner fun r r' => r.Agree mine r'
  hashOrder : Answers L .hashOrder .hashOrder fun _ _ => True

/-! ## Programs -/

/-- Both programs go through the same and return the same. -/
abbrev Lockstep (L : Link schedInterface) {α : Type} (p p' : Sched α) : Prop :=
  Related L (fun a a' => a' = a) p p'

section

variable {L : Link schedInterface} {α β β' : Type}

theorem lockstep_bind {Q : β → β' → Prop} {p p' : Sched α} {f : α → Sched β} {f' : α → Sched β'}
    (hp : Lockstep L p p') (hf : ∀ a, Related L Q (f a) (f' a)) : Related L Q (p >>= f) (p' >>= f') :=
  related_bind hp fun a _ heq => heq ▸ hf a

end

namespace Connects

variable {L : Link schedInterface} {dag : Dag} {mine : JobId → Prop} {G : Gate → Gate → Prop}
  {P : RetryPolicy → RetryPolicy → Prop} {J : ErasedJob → ErasedJob → Prop} {id : JobId}

theorem lock (h : Connects L dag mine G P J) {c : Cmd} (hc : c.about mine) :
    Lockstep L (Shigoto.lock c) (Shigoto.lock c) := related_answers (h.plain c hc)

theorem dispatch (h : Connects L dag mine G P J) (hid : mine id) (signal : Signal)
    (transitions : List TransitionEvent) :
    Lockstep L (Shigoto.dispatch id signal transitions) (Shigoto.dispatch id signal transitions) := by
  refine lockstep_bind (h.lock (c := .dispatch id signal) hid) fun answer => ?_
  cases answer <;> rfl

theorem consultAll (h : Connects L dag mine G P J) {ctx ctx' : GateContext} (hdag : ctx.dag = dag)
    (hctx : ctx.Agree mine ctx') {gates gates' : List Gate} (hgates : List.Forall₂ G gates gates')
    (outcomes : List GateOutcome) :
    Lockstep L (Shigoto.consultAll ctx gates outcomes) (Shigoto.consultAll ctx' gates' outcomes) := by
  induction hgates generalizing outcomes with
  | nil => rfl
  | cons hgate _ ih =>
    exact lockstep_bind (related_answers (h.consult _ _ _ _ hgate hdag hctx)) fun _ => ih _

theorem evaluateGates (h : Connects L dag mine G P J) (hid : mine id) :
    Lockstep L (Shigoto.evaluateGates id dag) (Shigoto.evaluateGates id dag) := by
  refine related_answers_bind (h.readGates id hid) ?_
  rintro ⟨gates, snapshot⟩ ⟨gates', snapshot'⟩ ⟨hgates, hsnapshot⟩
  have hctx : GateContext.Agree mine ⟨id, snapshot, dag⟩ ⟨id, snapshot', dag⟩ := ⟨rfl, rfl, hsnapshot⟩
  exact lockstep_bind (h.consultAll rfl hctx hgates []) fun outcomes =>
    cohortAggregate_agree hctx (h.preds id hid) outcomes

theorem decideRetry (h : Connects L dag mine G P J) (hid : mine id) :
    Lockstep L (Shigoto.decideRetry id) (Shigoto.decideRetry id) := by
  refine related_answers_bind (h.readRetry id hid) ?_
  rintro ⟨policy, attempt, history⟩ ⟨policy', _⟩ ⟨hpolicy, rfl⟩
  refine lockstep_bind (related_answers (h.decide policy policy' attempt history hpolicy)) fun decision => ?_
  cases decision with
  | deadletter => rfl
  | retry after => exact lockstep_bind (h.lock True.intro) fun _ => rfl

theorem advanceOnce (h : Connects L dag mine G P J) (hid : mine id) (source : JobPhase)
    (transitions : List TransitionEvent) :
    Lockstep L (Shigoto.advanceOnce id source dag transitions)
      (Shigoto.advanceOnce id source dag transitions) := by
  have hsend : ∀ signal, Lockstep L
      (Shigoto.dispatch id signal transitions >>= fun transitions => pure (true, transitions))
      (Shigoto.dispatch id signal transitions >>= fun transitions => pure (true, transitions)) :=
    fun signal => lockstep_bind (h.dispatch hid signal transitions) fun _ => rfl
  cases source with
  | pending | gated =>
    refine lockstep_bind (h.evaluateGates hid) fun aggregate => ?_
    dsimp only
    split
    · rfl
    · exact hsend _
  | ready =>
    refine related_answers_bind (h.tryAllocate id hid) fun answer answer' hanswer => ?_
    cases answer with
    | ok u =>
      obtain rfl : answer' = .ok () := hanswer.mpr rfl
      exact hsend _
    | error e =>
      cases answer' with
      | ok u => cases hanswer.mp rfl
      | error e' => rfl
  | retrying untilMs =>
    refine lockstep_bind (h.lock True.intro) fun nowMs => ?_
    split
    · rfl
    · exact hsend _
  | failed n => exact lockstep_bind (h.decideRetry hid) fun outcome => hsend _
  | _ => rfl

theorem drive (h : Connects L dag mine G P J) (hid : mine id) (bound : Nat)
    (transitions : List TransitionEvent) :
    Lockstep L (Shigoto.drive dag id bound transitions) (Shigoto.drive dag id bound transitions) := by
  induction bound generalizing transitions with
  | zero => rfl
  | succ bound ih =>
    refine lockstep_bind (h.lock hid) fun source => ?_
    split
    · rfl
    · refine lockstep_bind (h.advanceOnce hid source transitions) ?_
      rintro ⟨progressed, transitions⟩
      dsimp only
      split
      · exact ih transitions
      · rfl

theorem pass1 (h : Connects L dag mine G P J) {wave : List JobId} (hwave : ∀ id ∈ wave, mine id)
    (transitions : List TransitionEvent) :
    Lockstep L (Shigoto.pass1 dag wave transitions) (Shigoto.pass1 dag wave transitions) := by
  induction wave generalizing transitions with
  | nil => rfl
  | cons id wave ih =>
    obtain ⟨hid, hrest⟩ := List.forall_mem_cons.mp hwave
    exact lockstep_bind (h.lock hid) fun _ => lockstep_bind (h.drive hid 6 transitions) (ih hrest)

theorem spawnAll (h : Connects L dag mine G P J) {ids : List JobId} (hids : ∀ id ∈ ids, mine id)
    {tasks : List Task} (htasks : ∀ task ∈ tasks, mine task.id) :
    Related L (fun tasks tasks' => tasks' = tasks ∧ ∀ task ∈ tasks, mine task.id)
      (Shigoto.spawnAll ids tasks) (Shigoto.spawnAll ids tasks) := by
  induction ids generalizing tasks with
  | nil => exact ⟨rfl, htasks⟩
  | cons id ids ih =>
    obtain ⟨hid, hrest⟩ := List.forall_mem_cons.mp hids
    refine related_answers_bind (h.lookupJob id hid) ?_
    rintro ⟨job, _⟩ ⟨job', timeout⟩ ⟨hjob, rfl⟩
    refine related_answers_bind (h.spawn id job job' timeout hid hjob) fun _ task hsame => ?_
    obtain ⟨rfl, htask⟩ := hsame
    apply ih hrest
    intro task' hmem
    rcases List.mem_append.mp hmem with hmem | hmem
    · exact htasks task' hmem
    · exact List.mem_singleton.mp hmem ▸ htask

theorem applyAll (h : Connects L dag mine G P J) {results : List (JobId × ExecResult)}
    (hresults : ∀ x ∈ results, mine x.1) (transitions : List TransitionEvent) :
    Lockstep L (Shigoto.applyAll results transitions) (Shigoto.applyAll results transitions) := by
  induction results generalizing transitions with
  | nil => rfl
  | cons result results ih =>
    obtain ⟨hid, hrest⟩ := List.forall_mem_cons.mp hresults
    obtain ⟨id, result⟩ := result
    refine lockstep_bind ?_ (ih hrest)
    cases result with
    | ok u =>
      refine lockstep_bind (h.dispatch hid _ transitions) fun _ => ?_
      exact lockstep_bind (h.lock hid) fun _ => lockstep_bind (h.lock hid) fun _ => rfl
    | error u =>
      refine lockstep_bind (h.lock hid) fun _ => lockstep_bind (h.dispatch hid _ transitions) fun _ => ?_
      exact lockstep_bind (h.lock hid) fun _ => rfl

theorem pass2 (h : Connects L dag mine G P J) {wave : List JobId} (hwave : ∀ id ∈ wave, mine id)
    (transitions : List TransitionEvent) :
    Lockstep L (Shigoto.pass2 wave transitions) (Shigoto.pass2 wave transitions) := by
  refine related_answers_bind (h.runningOf wave hwave) fun _ ids hsame => ?_
  obtain ⟨rfl, hids⟩ := hsame
  split
  · rfl
  · have hexecute : Related L (fun results results' => results' = results ∧ ∀ x ∈ results, mine x.1)
        (executeConcurrent ids) (executeConcurrent ids) := by
      refine related_bind (h.spawnAll hids (List.forall_mem_nil _)) fun _ tasks hsame => ?_
      obtain ⟨rfl, htasks⟩ := hsame
      exact related_answers (h.join tasks htasks)
    refine related_bind hexecute fun _ results hsame => ?_
    obtain ⟨rfl, hresults⟩ := hsame
    exact h.applyAll hresults transitions

theorem pass3 (h : Connects L dag mine G P J) {wave : List JobId} (hwave : ∀ id ∈ wave, mine id)
    (transitions : List TransitionEvent) :
    Lockstep L (Shigoto.pass3 dag wave transitions) (Shigoto.pass3 dag wave transitions) := by
  induction wave generalizing transitions with
  | nil => rfl
  | cons id wave ih =>
    obtain ⟨hid, hrest⟩ := List.forall_mem_cons.mp hwave
    exact lockstep_bind (h.drive hid 3 transitions) (ih hrest)

theorem runWaves (h : Connects L dag mine G P J) {waves : List (List JobId)}
    (hwaves : ∀ wave ∈ waves, ∀ id ∈ wave, mine id) (transitions : List TransitionEvent) :
    Lockstep L (Shigoto.runWaves dag waves transitions) (Shigoto.runWaves dag waves transitions) := by
  induction waves generalizing transitions with
  | nil => rfl
  | cons wave waves ih =>
    obtain ⟨hwave, hrest⟩ := List.forall_mem_cons.mp hwaves
    refine lockstep_bind (h.pass1 hwave transitions) fun transitions => ?_
    refine lockstep_bind (h.pass2 hwave transitions) fun transitions => ?_
    exact lockstep_bind (h.pass3 hwave transitions) (ih hrest)

/-- **Connected schedulers tick in the same way.** -/
theorem tick (h : Connects L dag mine G P J) :
    Related L (TickReceipt.Linked mine) (Shigoto.tick dag) (Shigoto.tick dag) := by
  refine lockstep_bind (h.lock True.intro) fun startedAt => ?_
  refine related_answers_bind h.waves fun _ waves hsame => ?_
  obtain ⟨rfl, hmine⟩ := hsame
  cases waves with
  | error e => rfl
  | ok waves =>
    refine lockstep_bind (h.runWaves (hmine waves rfl) []) fun transitions => ?_
    refine related_answers_bind h.snapshotInner fun snapshot snapshot' hsnapshot => ?_
    refine related_answers_bind h.hashOrder fun _ _ _ => ?_
    exact ⟨rfl, rfl, snapshot, snapshot', hsnapshot, rfl, rfl, ⟨_, _, rfl⟩, ⟨_, _, rfl⟩⟩

end Connects

end Shigoto
