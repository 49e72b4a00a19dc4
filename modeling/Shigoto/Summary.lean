import Shigoto.Tally
import Shigoto.Types

/-!
# The published summary

`summary` looks the counts of `phase_counts` up by their names, `failure_set` picks entries by their
phase, and both are to describe one phase map. `counts_conserved`: as long as 32 bits can count the
jobs, the counts are those of the phase classes, and every job is in exactly one of them.
-/

namespace Shigoto

open Tally

/-! ## Classes of phases -/

/-- Waiting to run: three phases of the machine. -/
def JobPhase.isWaiting : JobPhase → Bool
  | .pending | .gated | .ready => true
  | _ => false

def JobPhase.isRetrying : JobPhase → Bool
  | .retrying _ => true
  | _ => false

def JobPhase.isSkipped : JobPhase → Bool
  | .skipped _ => true
  | _ => false

/-! ## The projections of a snapshot -/

/-- `Failed`, `Retrying` or `Deadlettered`. -/
def JobPhase.isFailure : JobPhase → Bool
  | .failed _ | .retrying _ | .deadlettered => true
  | _ => false

/-- The jobs that currently fail. `order` is the iteration order of the hash map. -/
def Snapshot.failureSet (order : JobId → Nat) (snapshot : Snapshot) : List (JobId × JobPhase) :=
  (Map.iterate order snapshot.phases).filter fun entry => entry.2.isFailure

/-- `u32::try_from(len).unwrap_or(u32::MAX)`. -/
def u32OfLen (len : Nat) : UInt32 := if len < 4294967296 then UInt32.ofNat len else 4294967295

/-- The out-of-process view of the scheduler's state. -/
structure SnapshotSummary where
  total : UInt32
  running : UInt32
  pending : UInt32
  failed : UInt32
  retrying : UInt32
  deadlettered : UInt32
  waitingForOperator : UInt32
  succeeded : UInt32
  skipped : UInt32
  deriving DecidableEq, Repr

def Snapshot.summary (snapshot : Snapshot) : SnapshotSummary :=
  let counts := snapshot.phaseCounts
  let get := fun k => (Map.get? counts k).getD 0
  { total := u32OfLen (Map.size snapshot.phases)
    running := get "running"
    -- "pending" to an operator is whatever waits to run
    pending := get "pending" + get "gated" + get "ready"
    failed := get "failed"
    retrying := get "retrying"
    deadlettered := get "deadlettered"
    waitingForOperator := get "waiting-for-operator"
    succeeded := get "succeeded"
    skipped := get "skipped" }

/-- Nothing running and nothing waiting. -/
def SnapshotSummary.isIdle (s : SnapshotSummary) : Bool := s.running = 0 && s.pending = 0

/-- How many jobs a human should look at. -/
def SnapshotSummary.needsAttention (s : SnapshotSummary) : UInt32 :=
  s.failed + s.retrying + s.deadlettered + s.waitingForOperator

/-! ## What is counted -/

/-- How many jobs are in a phase of the class. -/
def Snapshot.jobs (snapshot : Snapshot) (p : JobPhase → Bool) : Nat :=
  Map.count (fun _ phase => p phase) snapshot.phases

variable {snapshot : Snapshot} {p q : JobPhase → Bool}

theorem jobs_le_size (snapshot : Snapshot) (p : JobPhase → Bool) :
    snapshot.jobs p ≤ Map.size snapshot.phases := List.countP_le_length

/-- Disjoint classes add up. -/
theorem jobs_or (hdisjoint : ∀ phase, p phase = true → q phase = false) :
    snapshot.jobs (fun phase => p phase || q phase) = snapshot.jobs p + snapshot.jobs q := by
  unfold Snapshot.jobs Map.count
  induction snapshot.phases.entries with
  | nil => rfl
  | cons entry entries ih =>
    have := hdisjoint entry.2
    grind

theorem jobs_eq_zero_iff : snapshot.jobs p = 0 ↔
    ∀ id phase, Map.get? snapshot.phases id = some phase → p phase = false := by
  rw [Snapshot.jobs, Map.count, List.countP_eq_zero]
  constructor
  · intro h id phase hget
    exact Bool.eq_false_iff.mpr (h ⟨id, phase⟩ ((Map.mem_entries_iff _ id phase).mpr hget))
  · intro h entry hentry
    exact Bool.eq_false_iff.mp (h entry.1 entry.2 ((Map.mem_entries_iff _ entry.1 entry.2).mp hentry))

theorem phaseCounts_eq (snapshot : Snapshot) :
    snapshot.phaseCounts = tally (snapshot.phases.entries.map fun entry => entry.2.countKey) := by
  rw [tally, List.foldl_map]
  rfl

/-- **A name counts the class of phases that carry it.** -/
theorem toNat_phaseCounts (hsize : Map.size snapshot.phases < 4294967296) {k : String}
    (hkey : ∀ phase : JobPhase, phase.countKey = k ↔ p phase = true) :
    ((Map.get? snapshot.phaseCounts k).getD 0).toNat = snapshot.jobs p := by
  have hlen : (snapshot.phases.entries.map fun entry => entry.2.countKey).length < 4294967296 := by
    rw [List.length_map]
    exact hsize
  rw [phaseCounts_eq]
  refine (toNat_counted hlen k).trans ?_
  rw [List.count, List.countP_map, Snapshot.jobs, Map.count]
  refine List.countP_congr fun entry _ => ?_
  rw [← hkey entry.2]
  exact beq_iff_eq

theorem length_failureSet (order : JobId → Nat) (snapshot : Snapshot) :
    (snapshot.failureSet order).length = snapshot.jobs JobPhase.isFailure := by
  rw [Snapshot.failureSet, ← List.countP_eq_length_filter, Map.iterate,
    (List.perm_insertionSort _ _).countP_eq, List.countP_map]
  rfl

/-! ## The summary -/

/-- What the summary says of the phase map. -/
structure CountsConserved (snapshot : Snapshot) : Prop where
  total : snapshot.summary.total.toNat = Map.size snapshot.phases
  running : snapshot.summary.running.toNat = snapshot.jobs (· = .running)
  pending : snapshot.summary.pending.toNat = snapshot.jobs JobPhase.isWaiting
  failed : snapshot.summary.failed.toNat = snapshot.jobs JobPhase.isFailed
  retrying : snapshot.summary.retrying.toNat = snapshot.jobs JobPhase.isRetrying
  deadlettered : snapshot.summary.deadlettered.toNat = snapshot.jobs (· = .deadlettered)
  waitingForOperator :
    snapshot.summary.waitingForOperator.toNat = snapshot.jobs (· = .waitingForOperator)
  succeeded : snapshot.summary.succeeded.toNat = snapshot.jobs (· = .succeeded)
  skipped : snapshot.summary.skipped.toNat = snapshot.jobs JobPhase.isSkipped
  /-- Every job is counted once. -/
  partition : snapshot.summary.total.toNat =
    snapshot.summary.running.toNat + snapshot.summary.pending.toNat + snapshot.summary.failed.toNat +
      snapshot.summary.retrying.toNat + snapshot.summary.deadlettered.toNat +
      snapshot.summary.waitingForOperator.toNat + snapshot.summary.succeeded.toNat +
      snapshot.summary.skipped.toNat
  sum : (snapshot.phaseCounts.entries.map fun e => e.2.toNat).sum = snapshot.summary.total.toNat
  failures : ∀ order, (snapshot.failureSet order).length =
    snapshot.summary.failed.toNat + snapshot.summary.retrying.toNat +
      snapshot.summary.deadlettered.toNat
  idle : snapshot.summary.isIdle = true ↔ ∀ id phase, Map.get? snapshot.phases id = some phase →
    phase ≠ .pending ∧ phase ≠ .gated ∧ phase ≠ .ready ∧ phase ≠ .running
  /-- The sum of the four is within 32 bits. -/
  attention : snapshot.summary.needsAttention.toNat =
    snapshot.summary.failed.toNat + snapshot.summary.retrying.toNat +
      snapshot.summary.deadlettered.toNat + snapshot.summary.waitingForOperator.toNat

/-- Each job is in one of the eight classes. -/
theorem size_eq_classes (snapshot : Snapshot) : Map.size snapshot.phases =
    snapshot.jobs (· = .running) + snapshot.jobs JobPhase.isWaiting + snapshot.jobs JobPhase.isFailed +
      snapshot.jobs JobPhase.isRetrying + snapshot.jobs (· = .deadlettered) +
      snapshot.jobs (· = .waitingForOperator) + snapshot.jobs (· = .succeeded) +
      snapshot.jobs JobPhase.isSkipped := by
  unfold Snapshot.jobs Map.count Map.size
  induction snapshot.phases.entries with
  | nil => rfl
  | cons entry entries ih =>
    simp only [List.length_cons, List.countP_cons, ih]
    cases entry.2 <;>
      simp [JobPhase.isWaiting, JobPhase.isFailed, JobPhase.isRetrying, JobPhase.isSkipped] <;> omega

theorem jobs_isWaiting (snapshot : Snapshot) : snapshot.jobs JobPhase.isWaiting =
    snapshot.jobs (· = .pending) + snapshot.jobs (· = .gated) + snapshot.jobs (· = .ready) := by
  rw [← jobs_or (by grind), ← jobs_or (by grind)]
  refine congrArg snapshot.jobs (funext fun phase => ?_)
  cases phase <;> rfl

theorem jobs_isFailure (snapshot : Snapshot) : snapshot.jobs JobPhase.isFailure =
    snapshot.jobs JobPhase.isFailed + snapshot.jobs JobPhase.isRetrying +
      snapshot.jobs (· = .deadlettered) := by
  have hretrying : ∀ phase : JobPhase, phase.isFailed = true → phase.isRetrying = false := by
    intro phase h
    cases phase <;> first | rfl | exact nomatch h
  have hdeadlettered : ∀ phase : JobPhase, (phase.isFailed || phase.isRetrying) = true →
      decide (phase = .deadlettered) = false := by
    intro phase h
    cases phase <;> first | rfl | exact nomatch h
  rw [← jobs_or hretrying, ← jobs_or hdeadlettered]
  refine congrArg snapshot.jobs (funext fun phase => ?_)
  cases phase <;> rfl

/-- Three names count the jobs that wait to run; 32 bits hold their sum. -/
theorem toNat_pending (hsize : Map.size snapshot.phases < 4294967296) :
    snapshot.summary.pending.toNat = snapshot.jobs JobPhase.isWaiting := by
  have hone : ∀ k : JobPhase, (∀ phase : JobPhase, phase.countKey = k.countKey ↔ phase = k) →
      ((Map.get? snapshot.phaseCounts k.countKey).getD 0).toNat = snapshot.jobs (· = k) :=
    fun k hk => toNat_phaseCounts hsize fun phase => by rw [hk phase, decide_eq_true_iff]
  have hsplit := jobs_isWaiting snapshot
  have hle := jobs_le_size snapshot JobPhase.isWaiting
  have hpending := hone .pending fun phase => by cases phase <;> simp [JobPhase.countKey]
  have hgated := hone .gated fun phase => by cases phase <;> simp [JobPhase.countKey]
  have hready := hone .ready fun phase => by cases phase <;> simp [JobPhase.countKey]
  simp only [JobPhase.countKey] at hpending hgated hready
  simp only [Snapshot.summary, UInt32.toNat_add, hpending, hgated, hready]
  omega

theorem SnapshotSummary.isIdle_iff (s : SnapshotSummary) :
    s.isIdle = true ↔ s.running.toNat = 0 ∧ s.pending.toNat = 0 := by
  rw [isIdle, Bool.and_eq_true, decide_eq_true_iff, decide_eq_true_iff, ← UInt32.toNat_inj,
    ← UInt32.toNat_inj]
  rfl

/-- No job is Running and none waits to run. -/
theorem no_jobs_iff (snapshot : Snapshot) :
    snapshot.jobs (· = .running) = 0 ∧ snapshot.jobs JobPhase.isWaiting = 0 ↔
      ∀ id phase, Map.get? snapshot.phases id = some phase →
        phase ≠ .pending ∧ phase ≠ .gated ∧ phase ≠ .ready ∧ phase ≠ .running := by
  rw [jobs_eq_zero_iff, jobs_eq_zero_iff]
  constructor
  · intro h id phase hget
    have := h.1 id phase hget
    have := h.2 id phase hget
    grind [JobPhase.isWaiting]
  · intro h
    refine ⟨fun id phase hget => ?_, fun id phase hget => ?_⟩ <;>
      · have := h id phase hget
        grind [JobPhase.isWaiting]

/-- **The published counts conserve jobs.** -/
theorem counts_conserved (hsize : Map.size snapshot.phases < 4294967296) :
    CountsConserved snapshot := by
  have hclasses := size_eq_classes snapshot
  have hrunning : snapshot.summary.running.toNat = snapshot.jobs (· = .running) :=
    toNat_phaseCounts hsize fun phase => by cases phase <;> simp [JobPhase.countKey]
  have hfailed : snapshot.summary.failed.toNat = snapshot.jobs JobPhase.isFailed :=
    toNat_phaseCounts hsize fun phase => by cases phase <;> simp [JobPhase.countKey, JobPhase.isFailed]
  have hretrying : snapshot.summary.retrying.toNat = snapshot.jobs JobPhase.isRetrying :=
    toNat_phaseCounts hsize fun phase => by
      cases phase <;> simp [JobPhase.countKey, JobPhase.isRetrying]
  have hdeadlettered : snapshot.summary.deadlettered.toNat = snapshot.jobs (· = .deadlettered) :=
    toNat_phaseCounts hsize fun phase => by cases phase <;> simp [JobPhase.countKey]
  have hwaiting :
      snapshot.summary.waitingForOperator.toNat = snapshot.jobs (· = .waitingForOperator) :=
    toNat_phaseCounts hsize fun phase => by cases phase <;> simp [JobPhase.countKey]
  have hsucceeded : snapshot.summary.succeeded.toNat = snapshot.jobs (· = .succeeded) :=
    toNat_phaseCounts hsize fun phase => by cases phase <;> simp [JobPhase.countKey]
  have hskipped : snapshot.summary.skipped.toNat = snapshot.jobs JobPhase.isSkipped :=
    toNat_phaseCounts hsize fun phase => by cases phase <;> simp [JobPhase.countKey, JobPhase.isSkipped]
  have htotal : snapshot.summary.total.toNat = Map.size snapshot.phases := by
    rw [Snapshot.summary, u32OfLen, if_pos hsize]
    exact UInt32.toNat_ofNat_of_lt' hsize
  have hpending := toNat_pending hsize
  refine ⟨htotal, hrunning, hpending, hfailed, hretrying, hdeadlettered, hwaiting, hsucceeded,
    hskipped, by omega, ?sum, fun order => ?failures, ?idle, ?attention⟩
  case sum =>
    rw [phaseCounts_eq, sum_tally (by rw [List.length_map]; exact hsize), List.length_map, htotal]
    rfl
  case failures =>
    rw [length_failureSet, jobs_isFailure, hfailed, hretrying, hdeadlettered]
  case idle =>
    rw [SnapshotSummary.isIdle_iff, hrunning, hpending, no_jobs_iff]
  case attention =>
    rw [SnapshotSummary.needsAttention]
    simp only [UInt32.toNat_add]
    omega

theorem counts_conserved_mixed :
    CountsConserved ⟨((∅ : Map JobId JobPhase).insert ⟨.global, ⟨"a"⟩, .none⟩ (.failed 2)).insert
      ⟨.global, ⟨"b"⟩, .none⟩ .gated⟩ :=
  counts_conserved (by decide)

end Shigoto
