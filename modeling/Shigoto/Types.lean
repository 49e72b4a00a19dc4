import Shigoto.Map
import Shigoto.Path
import Mathlib.Data.String.Basic

/-!
# The typed primitives: identities, phases, signals and the transition table

The data every crate of the workspace shares, and `advance`, the one function that decides how a
job's phase may change. Fixed-width integers of the source keep their width (`UInt32`, `Int64`), so
arithmetic on them wraps as a release build does.
-/

namespace Shigoto

/-! ## Job identity -/

inductive JobScope
  | global
  | workspace (name : String)
  | repo (workspace repo : String)
  deriving DecidableEq, Repr

/-- What a job is about. `P` is how paths are given: as they are compared, or as they are spelled. -/
inductive JobSubject (P : Type := Components)
  | none
  | repo (name : String)
  | org (name : String)
  | path (path : P)
  | pinned (name : String)
  deriving DecidableEq, Repr

def JobSubject.map {P Q : Type} (f : P → Q) : JobSubject P → JobSubject Q
  | .none => .none
  | .repo name => .repo name
  | .org name => .org name
  | .path p => .path (f p)
  | .pinned name => .pinned name

/-- Typed work-class identifier. -/
structure JobKindId where
  name : String
  deriving DecidableEq, Repr

/-- Typed identity for a job, stable across cycles and restarts. A `JobId` is what `==` and `Hash` see of it,
and a `JobId PathBuf` is one as it is spelled. Where nothing is printed the two are not told apart. -/
structure JobId (P : Type := Components) where
  scope : JobScope
  kind : JobKindId
  subject : JobSubject P
  deriving DecidableEq, Repr

/-- Lists of ids are searched with `==`. -/
instance JobId.lawfulBEq : LawfulBEq JobId := inferInstance

/-- What `==` and `Hash` see of a spelled id. -/
def JobId.key (id : JobId PathBuf) : JobId := ⟨id.scope, id.kind, id.subject.map PathBuf.components⟩

/-- The id with its path spelled as the components give it. -/
def JobId.plain (id : JobId) : JobId PathBuf := ⟨id.scope, id.kind, id.subject.map Components.plain⟩

@[simp] theorem JobId.key_plain (id : JobId) : id.plain.key = id := by
  obtain ⟨scope, kind, subject⟩ := id
  cases subject <;> simp [plain, key, JobSubject.map]

/-- A job without a path is spelled in one way. -/
theorem JobId.eq_of_key {s t : JobId PathBuf} (hpath : ∀ p, t.subject ≠ .path p) (h : s.key = t.key) :
    s = t := by
  obtain ⟨scope, kind, subject⟩ := s
  obtain ⟨scope', kind', subject'⟩ := t
  simp only [key, mk.injEq] at h
  obtain ⟨rfl, rfl, hsubject⟩ := h
  cases subject' with
  | path p => exact absurd rfl (hpath p)
  | _ => cases subject <;> simp_all [JobSubject.map]

/-- One spelling for every job. -/
structure Spelling where
  of : JobId → JobId PathBuf
  key_of : ∀ id, (of id).key = id

def Spelling.plain : Spelling := ⟨JobId.plain, JobId.key_plain⟩

/-- The same spellings but for one job. -/
def Spelling.update (spelling : Spelling) (spelled : JobId PathBuf) : Spelling where
  of id := if id = spelled.key then spelled else spelling.of id
  key_of id := by
    split
    · next h => exact h.symm
    · exact spelling.key_of id

theorem Spelling.update_self (spelling : Spelling) (spelled : JobId PathBuf) :
    (spelling.update spelled).of spelled.key = spelled := if_pos rfl

theorem Spelling.update_ne (spelling : Spelling) {spelled : JobId PathBuf} {id : JobId}
    (h : id ≠ spelled.key) : (spelling.update spelled).of id = spelling.of id := if_neg h

/-- The first job is rendered before the second, however the two are spelled. -/
def JobId.Precedes (render : JobId PathBuf → String) (a b : JobId) : Prop :=
  ∀ s t : JobId PathBuf, s.key = a → t.key = b → render s < render t

/-- The order of the two renderings does not depend on how the jobs are spelled. -/
def JobId.Apart (render : JobId PathBuf → String) (a b : JobId) : Prop :=
  a.Precedes render b ∨ b.Precedes render a

/-- Two jobs without paths are apart where they are rendered differently. -/
theorem JobId.apart_of_ne {render : JobId PathBuf → String} {s t : JobId PathBuf}
    (hs : ∀ p, s.subject ≠ .path p) (ht : ∀ p, t.subject ≠ .path p) (h : render s ≠ render t) :
    s.key.Apart render t.key := by
  rcases lt_or_gt_of_ne h with hlt | hlt
  · refine .inl fun s' t' hs' ht' => ?_
    rwa [eq_of_key hs hs', eq_of_key ht ht']
  · refine .inr fun t' s' ht' hs' => ?_
    rwa [eq_of_key hs hs', eq_of_key ht ht']

/-- Two jobs that are not always rendered in this order can be spelled so that they are not. -/
theorem JobId.exists_of_not_precedes {render : JobId PathBuf → String} {a b : JobId} (hne : a ≠ b)
    (h : ¬ a.Precedes render b) : ∃ spelling : Spelling, render (spelling.of b) ≤ render (spelling.of a) := by
  unfold Precedes at h
  push Not at h
  obtain ⟨s, t, rfl, rfl, hle⟩ := h
  refine ⟨(Spelling.plain.update s).update t, ?_⟩
  rwa [Spelling.update_self, Spelling.update_ne _ hne, Spelling.update_self]

/-! ## Phases and signals -/

inductive SkipReason
  | gateRejected
  | blockedByDeadletteredAncestor
  | operatorDecision
  | other (text : String)
  deriving DecidableEq, Repr

/-- The phase a job inhabits. -/
inductive JobPhase
  | pending
  | gated
  | ready
  | running
  | succeeded
  | failed (attempts : UInt32)
  | retrying (untilMs : Int64)
  | skipped (reason : SkipReason)
  | deadlettered
  | waitingForOperator
  deriving DecidableEq, Repr

/-- What a cohort of gates collectively said. `allPassed` carries the number of gates that passed,
which the source types as non-zero. -/
inductive GateAggregate
  | allPassed (gates : { n : Nat // n ≠ 0 })
  | vacuous
  | someWaiting
  | skipped (reason : SkipReason)
  deriving DecidableEq, Repr

inductive RetryOutcome
  | retry (untilMs : Int64)
  | deadletter
  deriving DecidableEq, Repr

/-- Every way a job's phase can be asked to change. -/
inductive Signal
  | evaluateGates (aggregate : GateAggregate)
  | allocateBudget
  | executionSucceeded
  | executionFailed
  | retryDecide (outcome : RetryOutcome)
  | cancel
  | timeout
  | backoffElapsed
  | operatorTransition (target : JobPhase)
  deriving DecidableEq, Repr

/-- A rejected transition: this phase cannot consume this signal. -/
structure IllegalTransition where
  phase : JobPhase
  signal : Signal
  deriving DecidableEq, Repr

/-- Where a gate verdict leads; the same four cells for every phase that may be re-evaluated. -/
def GateAggregate.phase : GateAggregate → JobPhase
  | .allPassed _ => .ready
  | .vacuous => .ready
  | .someWaiting => .gated
  | .skipped reason => .skipped reason

/-- The canonical transition table. -/
def advance (phase : JobPhase) (signal : Signal) : Except IllegalTransition JobPhase :=
  match phase, signal with
  -- Pending dispatches via gate evaluation; Gated re-evaluates each tick.
  | .pending, .evaluateGates aggregate => .ok aggregate.phase
  | .gated, .evaluateGates aggregate => .ok aggregate.phase
  -- Ready awaits a slot. The table would let it be re-evaluated too.
  | .ready, .allocateBudget => .ok .running
  | .ready, .evaluateGates aggregate => .ok aggregate.phase
  -- Running terminates per execute outcome.
  | .running, .executionSucceeded => .ok .succeeded
  | .running, .executionFailed => .ok (.failed 1)
  | .running, .cancel => .ok (.failed 1)
  | .running, .timeout => .ok (.failed 1)
  -- Failed waits for the retry policy's decision.
  | .failed _, .retryDecide (.retry untilMs) => .ok (.retrying untilMs)
  | .failed _, .retryDecide .deadletter => .ok .deadlettered
  -- Retrying re-evaluates after the backoff window.
  | .retrying _, .backoffElapsed => .ok .pending
  | .retrying _, .evaluateGates aggregate => .ok aggregate.phase
  -- Operator-driven transitions.
  | .waitingForOperator, .operatorTransition .ready => .ok .ready
  | .waitingForOperator, .operatorTransition (.skipped reason) => .ok (.skipped reason)
  | .deadlettered, .operatorTransition .pending => .ok .pending
  | phase, signal => .error ⟨phase, signal⟩

/-- A phase no signal of the scheduler itself leaves (`is_terminal` of the gate crate). -/
def JobPhase.isTerminal : JobPhase → Bool
  | .succeeded | .skipped _ | .deadlettered => true
  | _ => false

/-- The phase of a failed execution that no policy has judged yet. -/
def JobPhase.isFailed : JobPhase → Bool
  | .failed _ => true
  | _ => false

/-! ### What `advance` can do

One inversion lemma per signal the scheduler dispatches, so that no later proof splits the table. -/

theorem advance_executionSucceeded_iff {p q : JobPhase} :
    advance p .executionSucceeded = .ok q ↔ p = .running ∧ q = .succeeded := by
  cases p <;> unfold advance <;> simp [eq_comm]

theorem advance_executionFailed_iff {p q : JobPhase} :
    advance p .executionFailed = .ok q ↔ p = .running ∧ q = .failed 1 := by
  cases p <;> unfold advance <;> simp [eq_comm]

theorem advance_allocateBudget_iff {p q : JobPhase} :
    advance p .allocateBudget = .ok q ↔ p = .ready ∧ q = .running := by
  cases p <;> unfold advance <;> simp [eq_comm]

/-- A phase from which the gates may be evaluated. -/
def JobPhase.evaluable : JobPhase → Bool
  | .pending | .gated | .ready | .retrying _ => true
  | _ => false

theorem advance_evaluateGates_iff {p q : JobPhase} {aggregate : GateAggregate} :
    advance p (.evaluateGates aggregate) = .ok q ↔ p.evaluable = true ∧ q = aggregate.phase := by
  cases p <;> unfold advance <;> simp [JobPhase.evaluable, eq_comm]

theorem advance_backoffElapsed_iff {p q : JobPhase} :
    advance p .backoffElapsed = .ok q ↔ (∃ untilMs, p = .retrying untilMs) ∧ q = .pending := by
  cases p <;> unfold advance <;> simp [eq_comm]

/-- Where a retry decision leads. -/
def RetryOutcome.phase : RetryOutcome → JobPhase
  | .retry untilMs => .retrying untilMs
  | .deadletter => .deadlettered

theorem advance_retryDecide_iff {p q : JobPhase} {outcome : RetryOutcome} :
    advance p (.retryDecide outcome) = .ok q ↔
      (∃ attempts, p = .failed attempts) ∧ q = outcome.phase := by
  cases p <;> cases outcome <;> unfold advance <;> simp [RetryOutcome.phase, eq_comm]

/-- An operator moves a waiting job to Ready or Skipped, and a deadlettered one back to Pending. -/
theorem advance_operatorTransition {p q target : JobPhase}
    (h : advance p (.operatorTransition target) = .ok q) :
    q = target ∧ (p = .waitingForOperator ∧ (target = .ready ∨ ∃ reason, target = .skipped reason) ∨
      p = .deadlettered ∧ target = .pending) := by
  unfold advance at h
  cases p <;> cases target <;> simp_all [eq_comm]

/-- The phase an operator asks for tells the phase that it is asked in. -/
theorem advance_operatorTransition_source {p p' q q' target : JobPhase}
    (h : advance p (.operatorTransition target) = .ok q)
    (h' : advance p' (.operatorTransition target) = .ok q') : p = p' := by
  obtain ⟨-, hp⟩ := advance_operatorTransition h
  obtain ⟨-, hp'⟩ := advance_operatorTransition h'
  rcases hp with ⟨rfl, rfl | ⟨reason, rfl⟩⟩ | ⟨rfl, rfl⟩ <;> simpa [eq_comm] using hp'

/-- A terminal phase is left only by an operator, and only Deadlettered is. -/
theorem advance_terminal {p q : JobPhase} {signal : Signal} (hp : p.isTerminal = true)
    (h : advance p signal = .ok q) :
    p = .deadlettered ∧ signal = .operatorTransition .pending ∧ q = .pending := by
  cases signal with
  | operatorTransition target =>
    obtain ⟨rfl, ⟨rfl, -⟩ | ⟨rfl, rfl⟩⟩ := advance_operatorTransition h
    · exact Bool.noConfusion hp
    · exact ⟨rfl, rfl, rfl⟩
  | _ => cases p <;> cases hp <;> cases h

/-! ## Events, snapshots and receipts -/

/-- `DateTime<Utc>`, of which the scheduler uses the millisecond timestamp. -/
abbrev DateTime := Int64

/-- `std::time::Duration`, in nanoseconds. -/
structure Duration where
  nanos : Nat
  deriving DecidableEq, Repr

def Duration.fromMillis (ms : Nat) : Duration := ⟨ms * 1000000⟩

def Duration.asMillis (d : Duration) : Nat := d.nanos / 1000000

inductive TransitionReason
  | gateEvaluation
  | budgetAllocated
  | executionSucceeded
  | executionFailed (error : String)
  | retryScheduled
  | backoffElapsed
  | timedOut
  | cancelled
  | operatorAction (note : String)
  deriving DecidableEq, Repr

/-- One recorded change of phase (`at`, `from` and `to` in the source). As with ids, one that is written down
is spelled. -/
structure TransitionEvent (P : Type := Components) where
  time : DateTime
  jobId : JobId P
  source : JobPhase
  target : JobPhase
  reason : TransitionReason
  tool : String
  deriving DecidableEq, Repr

def TransitionEvent.key (e : TransitionEvent PathBuf) : TransitionEvent :=
  ⟨e.time, e.jobId.key, e.source, e.target, e.reason, e.tool⟩

def TransitionEvent.spell (spelling : Spelling) (e : TransitionEvent) : TransitionEvent PathBuf :=
  ⟨e.time, spelling.of e.jobId, e.source, e.target, e.reason, e.tool⟩

@[simp] theorem TransitionEvent.key_spell (spelling : Spelling) (e : TransitionEvent) :
    (e.spell spelling).key = e := by
  simp [spell, key, spelling.key_of]

/-- Read-only copy of the phase map. -/
structure Snapshot where
  phases : Map JobId JobPhase

/-- The phase of a job in a phase map; a job nobody mentioned yet is Pending. -/
def phaseIn (phases : Map JobId JobPhase) (id : JobId) : JobPhase :=
  (phases.get? id).getD .pending

@[simp] theorem phaseIn_insert_self (phases : Map JobId JobPhase) (id : JobId) (p : JobPhase) :
    phaseIn (phases.insert id p) id = p := by
  simp [phaseIn]

theorem phaseIn_insert_ne (phases : Map JobId JobPhase) {id id' : JobId} (p : JobPhase)
    (h : id' ≠ id) : phaseIn (phases.insert id p) id' = phaseIn phases id' := by
  simp [phaseIn, Map.get?_insert_ne phases p h]

theorem phaseIn_insert (phases : Map JobId JobPhase) (id id' : JobId) (p : JobPhase) :
    phaseIn (phases.insert id p) id' = if id' = id then p else phaseIn phases id' := by
  by_cases h : id' = id
  · subst h; simp
  · rw [phaseIn_insert_ne phases p h, if_neg h]

/-- A phase other than Pending is stored, not defaulted. -/
theorem get?_of_phaseIn {phases : Map JobId JobPhase} {id : JobId} {p : JobPhase}
    (h : phaseIn phases id = p) (hp : p ≠ .pending) : phases.get? id = some p := by
  unfold phaseIn at h
  cases hget : phases.get? id with
  | none => rw [hget] at h; exact absurd h.symm hp
  | some q => rw [hget] at h; exact congrArg some h

/-- The key `phase_counts` counts a phase under. -/
def JobPhase.countKey : JobPhase → String
  | .pending => "pending"
  | .gated => "gated"
  | .ready => "ready"
  | .running => "running"
  | .succeeded => "succeeded"
  | .failed _ => "failed"
  | .retrying _ => "retrying"
  | .skipped _ => "skipped"
  | .deadlettered => "deadlettered"
  | .waitingForOperator => "waiting-for-operator"

/-- Count of jobs in each named phase. -/
def Snapshot.phaseCounts (snapshot : Snapshot) : Map String UInt32 :=
  snapshot.phases.entries.foldl
    (fun counts entry =>
      counts.insert entry.2.countKey ((Map.get? counts entry.2.countKey).getD 0 + 1)) ∅

/-- A job that needs the operator's attention. -/
structure UnhealedDrift where
  jobId : JobId
  phase : JobPhase
  ageSeconds : UInt64
  deriving DecidableEq, Repr

/-- What one tick reports. -/
structure TickReceipt where
  tickAt : DateTime
  phaseCounts : Map String UInt32
  transitionsThisTick : List TransitionEvent
  unhealed : List UnhealedDrift

end Shigoto
