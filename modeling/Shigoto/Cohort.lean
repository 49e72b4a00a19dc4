import Shigoto.Gate

/-!
# What a cohort of gates can say

`reduce` stops at the first skip and carries two accumulators up to it. Here its verdict is read off
the outcomes themselves: which ones occur, how often, and which skip comes first (`Reduced`). A gate
that examined nothing leaves no trace in the verdict, and the order of the gates shows in the reason of
a skip only.
-/

namespace Shigoto

/-- The reason, of an outcome that skips the job. -/
def GateOutcome.skipReason : GateOutcome → Option SkipReason
  | .skip reason => some reason
  | .pass | .vacuous | .wait => none

theorem GateOutcome.skipReason_eq_some_iff {o : GateOutcome} {reason : SkipReason} :
    o.skipReason = some reason ↔ o = .skip reason := by
  cases o <;> simp [skipReason]

/-! ## The loop, read backwards -/

/-- A loop that meets no skip ends with its accumulators: the waits seen and the passes counted. -/
theorem reduceFrom_of_noSkip {outcomes : List GateOutcome} (anyWait : Bool) (passed : Nat)
    (h : outcomes.findSome? GateOutcome.skipReason = none) :
    reduceFrom anyWait passed outcomes =
      reduceFrom (anyWait || decide (.wait ∈ outcomes)) (passed + outcomes.count .pass) [] := by
  induction outcomes generalizing anyWait passed with
  | nil => simp
  | cons o outcomes ih =>
    have hrest : outcomes.findSome? GateOutcome.skipReason = none := by
      rw [List.findSome?_eq_none_iff] at h ⊢
      exact fun a ha => h a (List.mem_cons_of_mem o ha)
    cases o with
    | skip reason => simp [List.findSome?_cons, GateOutcome.skipReason] at h
    | wait =>
      refine (ih true passed hrest).trans ?_
      simp
    | pass =>
      refine (ih anyWait (passed + 1) hrest).trans ?_
      rw [List.count_cons_self, Nat.add_right_comm, Nat.add_assoc]
      simp
    | vacuous =>
      refine (ih anyWait passed hrest).trans ?_
      simp

/-- A loop that meets a skip ends there, whatever it has seen before. -/
theorem reduceFrom_of_skip {outcomes : List GateOutcome} (anyWait : Bool) (passed : Nat)
    {reason : SkipReason} (h : outcomes.findSome? GateOutcome.skipReason = some reason) :
    reduceFrom anyWait passed outcomes = .skipped reason := by
  induction outcomes generalizing anyWait passed with
  | nil => simp at h
  | cons o outcomes ih =>
    cases o with
    | skip reason' =>
      have heq : reason' = reason := by simpa [List.findSome?_cons, GateOutcome.skipReason] using h
      rw [reduceFrom, heq]
    | wait =>
      refine ih true passed ?_
      simpa [List.findSome?_cons, GateOutcome.skipReason] using h
    | pass =>
      refine ih anyWait (passed + 1) ?_
      simpa [List.findSome?_cons, GateOutcome.skipReason] using h
    | vacuous =>
      refine ih anyWait passed ?_
      simpa [List.findSome?_cons, GateOutcome.skipReason] using h

/-- No outcome of the cohort skips the job. -/
def NoSkip (outcomes : List GateOutcome) : Prop := ∀ reason, .skip reason ∉ outcomes

theorem noSkip_iff {outcomes : List GateOutcome} :
    NoSkip outcomes ↔ outcomes.findSome? GateOutcome.skipReason = none := by
  rw [List.findSome?_eq_none_iff, NoSkip]
  constructor
  · intro h o ho
    cases hreason : o.skipReason with
    | none => rfl
    | some reason => exact absurd (GateOutcome.skipReason_eq_some_iff.mp hreason ▸ ho) (h reason)
  · intro h reason hmem
    exact nomatch h _ hmem

/-- The first outcome that skips the job gives this reason. -/
def FirstSkip (outcomes : List GateOutcome) (reason : SkipReason) : Prop :=
  ∃ before after, outcomes = before ++ .skip reason :: after ∧ NoSkip before

theorem firstSkip_iff {outcomes : List GateOutcome} {reason : SkipReason} :
    FirstSkip outcomes reason ↔ outcomes.findSome? GateOutcome.skipReason = some reason := by
  rw [List.findSome?_eq_some_iff, FirstSkip]
  constructor
  · rintro ⟨before, after, rfl, hbefore⟩
    exact ⟨before, _, after, rfl, rfl, List.findSome?_eq_none_iff.mp (noSkip_iff.mp hbefore)⟩
  · rintro ⟨before, o, after, rfl, ho, hbefore⟩
    exact ⟨before, after, by rw [GateOutcome.skipReason_eq_some_iff.mp ho],
      noSkip_iff.mpr (List.findSome?_eq_none_iff.mpr hbefore)⟩

theorem noSkip_or_firstSkip (outcomes : List GateOutcome) :
    NoSkip outcomes ∨ ∃ reason, FirstSkip outcomes reason := by
  cases h : outcomes.findSome? GateOutcome.skipReason with
  | none => exact .inl (noSkip_iff.mpr h)
  | some reason => exact .inr ⟨reason, firstSkip_iff.mpr h⟩

theorem FirstSkip.not_noSkip {outcomes : List GateOutcome} {reason : SkipReason}
    (h : FirstSkip outcomes reason) : ¬ NoSkip outcomes := by
  intro hno
  rw [firstSkip_iff, noSkip_iff.mp hno] at h
  exact nomatch h

/-! ## The verdict -/

theorem FirstSkip.reduce {outcomes : List GateOutcome} {reason : SkipReason}
    (h : FirstSkip outcomes reason) : reduce outcomes = .skipped reason :=
  reduceFrom_of_skip false 0 (firstSkip_iff.mp h)

theorem NoSkip.reduce {outcomes : List GateOutcome} (h : NoSkip outcomes) :
    reduce outcomes = reduceFrom (decide (.wait ∈ outcomes)) (outcomes.count .pass) [] := by
  rw [Shigoto.reduce, reduceFrom_of_noSkip false 0 (noSkip_iff.mp h), Bool.false_or, Nat.zero_add]

/-- The verdict on a cohort, worst outcome first. -/
structure Reduced (outcomes : List GateOutcome) : Prop where
  skipped : ∀ reason, reduce outcomes = .skipped reason ↔ FirstSkip outcomes reason
  someWaiting : reduce outcomes = .someWaiting ↔ NoSkip outcomes ∧ .wait ∈ outcomes
  allPassed : ∀ gates, reduce outcomes = .allPassed gates ↔
    NoSkip outcomes ∧ .wait ∉ outcomes ∧ outcomes.count .pass = gates.val
  vacuous : reduce outcomes = .vacuous ↔ NoSkip outcomes ∧ .wait ∉ outcomes ∧ .pass ∉ outcomes

/-- How the loop ends, by its two accumulators. -/
theorem reduceFrom_nil_cases (anyWait : Bool) (passed : Nat) :
    (anyWait = true ∧ reduceFrom anyWait passed [] = .someWaiting) ∨
    (anyWait = false ∧ passed = 0 ∧ reduceFrom anyWait passed [] = .vacuous) ∨
    (anyWait = false ∧ ∃ gates : passed ≠ 0,
      reduceFrom anyWait passed [] = .allPassed ⟨passed, gates⟩) := by
  cases anyWait with
  | true => exact .inl ⟨rfl, rfl⟩
  | false =>
    by_cases hpassed : passed = 0
    · exact .inr (.inl ⟨rfl, hpassed, by simp [reduceFrom, hpassed]⟩)
    · exact .inr (.inr ⟨rfl, hpassed, by simp [reduceFrom, hpassed]⟩)

theorem reduced (outcomes : List GateOutcome) : Reduced outcomes := by
  obtain hno | ⟨reason, hskip⟩ := noSkip_or_firstSkip outcomes
  · -- the accumulators hold what the whole cohort says
    have hfirst : ∀ reason, ¬ FirstSkip outcomes reason := fun _ h => h.not_noSkip hno
    have hpass : outcomes.count .pass = 0 ↔ .pass ∉ outcomes := List.count_eq_zero
    obtain ⟨hwait, heq⟩ | ⟨hwait, hzero, heq⟩ | ⟨hwait, hpos, heq⟩ :=
      reduceFrom_nil_cases (decide (.wait ∈ outcomes)) (outcomes.count .pass)
    all_goals
      rw [← hno.reduce] at heq
      constructor <;> grind
  · have hno := hskip.not_noSkip
    have heq := hskip.reduce
    constructor <;> grind [firstSkip_iff]

/-! ## Gates that examined nothing -/

/-- The loop passes over a vacuous outcome. -/
theorem reduceFrom_filter_vacuous (anyWait : Bool) (passed : Nat) (outcomes : List GateOutcome) :
    reduceFrom anyWait passed (outcomes.filter (· ≠ GateOutcome.vacuous)) =
      reduceFrom anyWait passed outcomes := by
  induction outcomes generalizing anyWait passed with
  | nil => rfl
  | cons o outcomes ih => cases o <;> simp [reduceFrom, ← ih]

/-- **Vacuous outcomes add nothing to a verdict**, wherever they stand. -/
theorem reduce_insert_vacuous (before after : List GateOutcome) (n : Nat) :
    reduce (before ++ List.replicate n .vacuous ++ after) = reduce (before ++ after) := by
  have hfilter : (before ++ List.replicate n GateOutcome.vacuous ++ after).filter
      (· ≠ GateOutcome.vacuous) = (before ++ after).filter (· ≠ GateOutcome.vacuous) := by simp
  rw [reduce, ← reduceFrom_filter_vacuous, hfilter, reduceFrom_filter_vacuous, ← reduce]

/-! ## The order of the gates -/

/-- The same verdict, up to the reason of a skip. -/
def GateAggregate.SameButReason (a b : GateAggregate) : Prop :=
  a = b ∨ ∃ reason reason', a = .skipped reason ∧ b = .skipped reason'

theorem NoSkip.perm {outcomes outcomes' : List GateOutcome} (hperm : outcomes.Perm outcomes') :
    NoSkip outcomes ↔ NoSkip outcomes' := by
  simp only [NoSkip, hperm.mem_iff]

/-- **The order of the gates shows in the reason of a skip only.** -/
theorem reduce_perm {outcomes outcomes' : List GateOutcome} (hperm : outcomes.Perm outcomes') :
    (reduce outcomes).SameButReason (reduce outcomes') := by
  obtain hno | ⟨reason, hskip⟩ := noSkip_or_firstSkip outcomes
  · left
    rw [hno.reduce, ((NoSkip.perm hperm).mp hno).reduce, hperm.count_eq]
    simp only [hperm.mem_iff]
  · obtain hno' | ⟨reason', hskip'⟩ := noSkip_or_firstSkip outcomes'
    · exact absurd ((NoSkip.perm hperm).mpr hno') hskip.not_noSkip
    · exact .inr ⟨reason, reason', hskip.reduce, hskip'.reduce⟩

/-! ## The result -/

/-- What the gates say and what the scheduler makes of it. -/
structure ReducesByWorst : Prop where
  exact : ∀ outcomes, Reduced outcomes
  /-- Vacuous outcomes never change the phase a job is moved to. -/
  inert : ∀ phase : JobPhase, phase.evaluable = true → ∀ before after n, ∃ target,
    advance phase (.evaluateGates (reduce (before ++ List.replicate n .vacuous ++ after))) = .ok target ∧
    advance phase (.evaluateGates (reduce (before ++ after))) = .ok target
  order : ∀ outcomes outcomes', outcomes.Perm outcomes' →
    (reduce outcomes).SameButReason (reduce outcomes')

/-- **Gate cohorts reduce by their worst outcome.** -/
theorem reduces_by_worst : ReducesByWorst where
  exact := reduced
  inert := fun phase hphase before after n => by
    refine ⟨(reduce (before ++ after)).phase, ?_, ?_⟩
    · rw [reduce_insert_vacuous]
      exact advance_evaluateGates_iff.mpr ⟨hphase, rfl⟩
    · exact advance_evaluateGates_iff.mpr ⟨hphase, rfl⟩
  order := fun _ _ => reduce_perm

end Shigoto
