import Mathlib.Algebra.Group.Nat.Defs
import Shigoto.Saturating
import Shigoto.Types

/-!
# Retry policies

`RetryPolicy.decide` and the failure records it reads. Two things it uses are not part of the
repository and come in as arguments: the floating-point arithmetic of a positive jitter, and the
moment at which a `custom` decider, which may read anything, is asked.

`exponential_follows_iff` says when an Exponential policy doubles its delay as its formula has it: the
doubling ends with the 31st attempt.
-/

namespace Shigoto

open Saturating

inductive FailureKind
  | transient
  | declarative
  deriving DecidableEq, Repr

structure FailureRecord where
  attempt : UInt32
  atMs : Int64
  error : String
  kind : FailureKind
  deriving DecidableEq, Repr

/-- A record with the default classification. -/
def FailureRecord.new (attempt : UInt32) (atMs : Int64) (error : String) : FailureRecord where
  attempt := attempt
  atMs := atMs
  error := error
  kind := .transient

inductive RetryDecision
  | retry (after : Duration)
  | deadletter
  deriving DecidableEq, Repr

/-- An `f64`, as its bits. -/
structure F64 where
  bits : UInt64
  deriving DecidableEq, Repr

/-- `x <= 0.0`: a zero or a negative number, and not a NaN. -/
def F64.nonPositive (x : F64) : Bool :=
  let exponent := (x.bits >>> 52) &&& 2047
  let mantissa := x.bits &&& 4503599627370495
  let isNaN := exponent = 2047 && mantissa ≠ 0
  !isNaN && (x.bits = 0 || x.bits ≥ 9223372036854775808)

inductive RetryPolicy
  | noRetry
  | fixed (attempts : UInt32) (delayMs : UInt64)
  | exponential (attempts : UInt32) (baseMs maxMs : UInt64) (jitter : F64)
  | custom (decider : Nat → UInt32 → List FailureRecord → RetryDecision)

/-- `floatJitter` stands for the floating-point branch, taken when the jitter is positive. -/
def jitterMs (floatJitter : UInt64 → F64 → UInt32 → UInt64) (base : UInt64) (jitter : F64)
    (attempt : UInt32) : UInt64 :=
  if jitter.nonPositive then base else floatJitter base jitter attempt

/-- Decide whether to retry. `attempt` is the 1-based number of the attempt that just failed and
`moment` the time at which a custom decider is asked. -/
def RetryPolicy.decide (floatJitter : UInt64 → F64 → UInt32 → UInt64) (moment : Nat)
    (policy : RetryPolicy) (attempt : UInt32) (history : List FailureRecord) : RetryDecision :=
  -- A declarative failure ends the loop whatever the policy says.
  if history.getLast?.any fun latest => latest.kind = .declarative then .deadletter
  else match policy with
    | .noRetry => .deadletter
    | .fixed attempts delayMs =>
      if attempt ≥ attempts then .deadletter else .retry (.fromMillis delayMs.toNat)
    | .exponential attempts baseMs maxMs jitter =>
      if attempt ≥ attempts then .deadletter
      else
        let exp := saturatingMul baseMs (1 <<< (min (attempt - 1) 30).toUInt64)
        let capped := min exp maxMs
        .retry (.fromMillis (jitterMs floatJitter capped jitter attempt).toNat)
    | .custom decider => decider moment attempt history

theorem RetryPolicy.decide_noRetry (floatJitter : UInt64 → F64 → UInt32 → UInt64) (moment : Nat)
    (attempt : UInt32) (history : List FailureRecord) :
    RetryPolicy.noRetry.decide floatJitter moment attempt history = .deadletter := by
  unfold RetryPolicy.decide
  split <;> rfl

/-- The number of attempts a Fixed or Exponential policy grants. -/
def RetryPolicy.limit : RetryPolicy → Option UInt32
  | .fixed attempts _ => some attempts
  | .exponential attempts _ _ _ => some attempts
  | _ => none

/-- A policy with a limit gives up exactly from that attempt on, unless the last failure was
declarative, when it gives up at once. -/
theorem decide_deadletter_iff {floatJitter : UInt64 → F64 → UInt32 → UInt64} {moment : Nat}
    {policy : RetryPolicy} {limit attempt : UInt32} {history : List FailureRecord}
    (hlimit : policy.limit = some limit)
    (hlast : ∀ r, history.getLast? = some r → r.kind = .transient) :
    policy.decide floatJitter moment attempt history = .deadletter ↔ limit ≤ attempt := by
  have hany : (history.getLast?.any fun latest => latest.kind = .declarative) = false := by
    cases hget : history.getLast? with
    | none => rfl
    | some r => simp [hlast r hget]
  cases policy with
  | noRetry => simp [RetryPolicy.limit] at hlimit
  | custom decider => simp [RetryPolicy.limit] at hlimit
  | fixed attempts delayMs =>
    obtain rfl : attempts = limit := by simpa [RetryPolicy.limit] using hlimit
    simp [RetryPolicy.decide, hany]
  | exponential attempts baseMs maxMs jitter =>
    obtain rfl : attempts = limit := by simpa [RetryPolicy.limit] using hlimit
    simp [RetryPolicy.decide, hany]

/-! ## The delays of an Exponential policy -/

/-- `a - b`, or a panic. -/
def checkedSub (a b : UInt32) : Option UInt32 := if b ≤ a then some (a - b) else none

/-- `a << k`, or a panic. -/
def checkedShl (a : UInt64) (k : UInt32) : Option UInt64 :=
  if k < 64 then some (a <<< k.toUInt64) else none

/-- `decide` in a build that checks its arithmetic; `none` is a panic. -/
def RetryPolicy.decideChecked (floatJitter : UInt64 → F64 → UInt32 → UInt64) (moment : Nat)
    (policy : RetryPolicy) (attempt : UInt32) (history : List FailureRecord) : Option RetryDecision :=
  if history.getLast?.any fun latest => latest.kind = .declarative then some .deadletter
  else match policy with
    | .exponential attempts baseMs maxMs jitter =>
      if attempt ≥ attempts then some .deadletter
      else do
        let doublings ← checkedSub attempt 1
        let factor ← checkedShl 1 (min doublings 30)
        let capped := min (saturatingMul baseMs factor) maxMs
        some (.retry (.fromMillis (jitterMs floatJitter capped jitter attempt).toNat))
    | policy => some (policy.decide floatJitter moment attempt history)

theorem toNat_min_doublings (k : UInt32) : (min k 30).toNat = min k.toNat 30 := by
  have hmin : min k 30 = if k ≤ 30 then k else 30 := rfl
  rw [hmin]
  split
  · next h => exact (Nat.min_eq_left (UInt32.le_iff_toNat_le.mp h)).symm
  · next h =>
    have hlt : ¬ k.toNat ≤ 30 := fun hle => h (UInt32.le_iff_toNat_le.mpr hle)
    exact (Nat.min_eq_right (Nat.le_of_not_le hlt)).symm

/-- Attempts count from one, and then nothing panics. -/
theorem RetryPolicy.decideChecked_eq {floatJitter : UInt64 → F64 → UInt32 → UInt64} {moment : Nat}
    {policy : RetryPolicy} {attempt : UInt32} {history : List FailureRecord} (hone : 1 ≤ attempt) :
    policy.decideChecked floatJitter moment attempt history =
      some (policy.decide floatJitter moment attempt history) := by
  have hsub : checkedSub attempt 1 = some (attempt - 1) := if_pos hone
  have hshift : checkedShl 1 (min (attempt - 1) 30) = some (1 <<< (min (attempt - 1) 30).toUInt64) := by
    refine if_pos (UInt32.lt_iff_toNat_lt.mpr ?_)
    rw [toNat_min_doublings]
    exact Nat.lt_of_le_of_lt (Nat.min_le_right _ 30) (by decide)
  unfold decideChecked decide
  cases policy <;> grind

/-- `min(base * 2^(attempt-1), max)`, over the natural numbers. -/
def backoffFormula (baseMs maxMs : UInt64) (attempt : UInt32) : Nat :=
  min (baseMs.toNat * 2 ^ (attempt.toNat - 1)) maxMs.toNat

/-- What is waited instead: the exponent stops at 30. -/
def backoffDelay (baseMs maxMs : UInt64) (attempt : UInt32) : Nat :=
  min (baseMs.toNat * 2 ^ min (attempt.toNat - 1) 30) maxMs.toNat

theorem toNat_capped (a b m : UInt64) :
    (min (saturatingMul a b) m).toNat = min (a.toNat * b.toNat) m.toNat := by
  have hmin : min (saturatingMul a b) m = if saturatingMul a b ≤ m then saturatingMul a b else m := rfl
  have hm := m.toNat_lt
  have hmul : (saturatingMul a b).toNat = min (a.toNat * b.toNat) 18446744073709551615 :=
    toNat_saturatingMul a b
  rw [hmin]
  split
  · next h =>
    have := UInt64.le_iff_toNat_le.mp h
    omega
  · next h =>
    have hlt : ¬ (saturatingMul a b).toNat ≤ m.toNat := fun hle => h (UInt64.le_iff_toNat_le.mpr hle)
    omega

/-- The factor of the shift. -/
theorem toNat_doublings (k : UInt32) :
    ((1 : UInt64) <<< (min k 30).toUInt64).toNat = 2 ^ min k.toNat 30 := by
  have hbound : min k.toNat 30 ≤ 30 := Nat.min_le_right _ _
  have hpow : 2 ^ min k.toNat 30 ≤ 2 ^ 30 := Nat.pow_le_pow_right (by decide) hbound
  rw [UInt64.toNat_shiftLeft, UInt32.toNat_toUInt64, toNat_min_doublings,
    Nat.mod_eq_of_lt (a := min k.toNat 30) (by omega), Nat.shiftLeft_eq]
  exact (congrArg (· % _) (Nat.one_mul _)).trans (Nat.mod_eq_of_lt (by omega))

section

variable {floatJitter : UInt64 → F64 → UInt32 → UInt64} {moment : Nat}
  {attempts attempt : UInt32} {baseMs maxMs : UInt64} {jitter : F64} {history : List FailureRecord}

/-- **The decision of an Exponential policy** with attempts left and without jitter. -/
theorem decideChecked_exponential (hone : 1 ≤ attempt) (hlt : attempt < attempts)
    (hjitter : jitter.nonPositive = true)
    (hlast : ∀ r, history.getLast? = some r → r.kind = .transient) :
    (RetryPolicy.exponential attempts baseMs maxMs jitter).decideChecked floatJitter moment attempt
      history = some (.retry (.fromMillis (backoffDelay baseMs maxMs attempt))) := by
  have hany : (history.getLast?.any fun latest => latest.kind = .declarative) = false := by
    cases hget : history.getLast? with
    | none => rfl
    | some r => simp [hlast r hget]
  have hsub : (attempt - 1).toNat = attempt.toNat - 1 := UInt32.toNat_sub_of_le _ _ hone
  rw [RetryPolicy.decideChecked_eq hone, RetryPolicy.decide, hany, backoffDelay, ← hsub,
    ← toNat_doublings, ← toNat_capped]
  simp [jitterMs, hjitter, UInt32.not_le.mpr hlt]

/-- The exponent stops where nothing is left to double, or not at all. -/
theorem backoffDelay_eq_iff : backoffDelay baseMs maxMs attempt = backoffFormula baseMs maxMs attempt ↔
    attempt ≤ 31 ∨ baseMs = 0 ∨ maxMs.toNat ≤ baseMs.toNat * 2 ^ 30 := by
  have hattempt : attempt ≤ 31 ↔ attempt.toNat ≤ 31 := UInt32.le_iff_toNat_le
  have hbase : baseMs = 0 ↔ baseMs.toNat = 0 := UInt64.toNat_inj.symm
  rw [hattempt, hbase, backoffDelay, backoffFormula]
  by_cases hsmall : attempt.toNat ≤ 31
  · have hexp : min (attempt.toNat - 1) 30 = attempt.toNat - 1 := by omega
    rw [hexp]
    exact iff_of_true rfl (.inl hsmall)
  · -- one doubling more than the code makes
    have hexp : min (attempt.toNat - 1) 30 = 30 := by omega
    have hpow : 2 ^ 31 ≤ 2 ^ (attempt.toNat - 1) := Nat.pow_le_pow_right (by decide) (by omega)
    have hmul := Nat.mul_le_mul_left baseMs.toNat hpow
    have hzero : baseMs.toNat = 0 → baseMs.toNat * 2 ^ (attempt.toNat - 1) = 0 := by
      intro hbase
      rw [hbase, Nat.zero_mul]
    rw [hexp]
    generalize baseMs.toNat * 2 ^ (attempt.toNat - 1) = doubled at hmul hzero ⊢
    omega

theorem backoffDelay_mono {earlier : UInt32} (h : earlier ≤ attempt) :
    backoffDelay baseMs maxMs earlier ≤ backoffDelay baseMs maxMs attempt := by
  have hexp : min (earlier.toNat - 1) 30 ≤ min (attempt.toNat - 1) 30 := by
    have := UInt32.le_iff_toNat_le.mp h
    omega
  have hmul := Nat.mul_le_mul_left baseMs.toNat (Nat.pow_le_pow_right (n := 2) (by decide) hexp)
  unfold backoffDelay
  omega

/-- **The delay follows the formula unless a 32nd attempt finds something left to double.** It never
falls, never exceeds the maximum, and nothing panics. -/
theorem exponential_follows_iff (hone : 1 ≤ attempt) (hlt : attempt < attempts)
    (hjitter : jitter.nonPositive = true)
    (hlast : ∀ r, history.getLast? = some r → r.kind = .transient) :
    let decision := fun attempt : UInt32 =>
      (RetryPolicy.exponential attempts baseMs maxMs jitter).decideChecked floatJitter moment attempt
        history
    (decision attempt = some (.retry (.fromMillis (backoffFormula baseMs maxMs attempt))) ↔
      attempt ≤ 31 ∨ baseMs = 0 ∨ maxMs.toNat ≤ baseMs.toNat * 2 ^ 30) ∧
    ∃ ms, decision attempt = some (.retry (.fromMillis ms)) ∧ ms ≤ maxMs.toNat ∧
      ∀ earlier, 1 ≤ earlier → earlier ≤ attempt →
        ∃ ms', decision earlier = some (.retry (.fromMillis ms')) ∧ ms' ≤ ms := by
  intro decision
  have hdecision : ∀ earlier, 1 ≤ earlier → earlier ≤ attempt → decision earlier =
      some (.retry (.fromMillis (backoffDelay baseMs maxMs earlier))) := fun earlier hpos hle =>
    decideChecked_exponential hpos (UInt32.lt_of_le_of_lt hle hlt) hjitter hlast
  refine ⟨?_, backoffDelay baseMs maxMs attempt, hdecision attempt hone (UInt32.le_refl _),
    Nat.min_le_right _ _, fun earlier hpos hle => ⟨_, hdecision earlier hpos hle, backoffDelay_mono hle⟩⟩
  rw [hdecision attempt hone (UInt32.le_refl _), ← backoffDelay_eq_iff]
  have hmillis : ∀ a b, Duration.fromMillis a = Duration.fromMillis b ↔ a = b := fun a b => by
    simp only [Duration.fromMillis, Duration.mk.injEq]
    omega
  simp [hmillis]

theorem exponential_follows_tenth :
    (RetryPolicy.exponential 11 250 60000 ⟨0⟩).decideChecked (fun base _ _ => base) 0 10 [] =
      some (.retry (.fromMillis (backoffFormula 250 60000 10))) :=
  (exponential_follows_iff (by decide) (by decide) (by decide) (by simp)).1.mpr
    (.inl (by decide))

/-- A day's worth of doublings is not reached: from the 31st attempt on the delay stays the same. -/
theorem exponential_stuck :
    ¬ ∀ (attempts attempt : UInt32) (baseMs maxMs : UInt64) (jitter : F64) (history : List FailureRecord),
      1 ≤ attempt → attempt < attempts → jitter.nonPositive = true →
      (∀ r, history.getLast? = some r → r.kind = .transient) →
      (RetryPolicy.exponential attempts baseMs maxMs jitter).decideChecked (fun base _ _ => base) 0 attempt
        history = some (.retry (.fromMillis (backoffFormula baseMs maxMs attempt))) := by
  intro h
  have hlate := h 100 40 1 1099511627776 ⟨0⟩ [] (by decide) (by decide) (by decide) (by simp)
  exact absurd hlate (by decide +kernel)

end

end Shigoto
