import Mathlib.Order.Defs.LinearOrder

/-!
# Saturating arithmetic

Addition and multiplication of 64-bit words that stop at the greatest word. A sum of products computed
this way is the exact sum, cut off at the greatest word once.
-/

namespace Saturating

/-- `u64::MAX`. -/
def top : UInt64 := 18446744073709551615

/-- `u64::saturating_add`. -/
def saturatingAdd (a b : UInt64) : UInt64 :=
  if a.toNat + b.toNat < 18446744073709551616 then a + b else top

/-- `u64::saturating_mul`. -/
def saturatingMul (a b : UInt64) : UInt64 :=
  if a.toNat * b.toNat < 18446744073709551616 then a * b else top

/-- The greatest word that is not above an exact value. -/
def capped (n : Nat) : Nat := min n 18446744073709551615

@[simp] theorem toNat_top : top.toNat = 18446744073709551615 := rfl

theorem toNat_saturatingAdd (a b : UInt64) :
    (saturatingAdd a b).toNat = capped (a.toNat + b.toNat) := by
  unfold saturatingAdd capped
  split
  · next h =>
    rw [UInt64.toNat_add, Nat.mod_eq_of_lt h]
    omega
  · next h =>
    rw [toNat_top]
    omega

theorem toNat_saturatingMul (a b : UInt64) :
    (saturatingMul a b).toNat = capped (a.toNat * b.toNat) := by
  unfold saturatingMul capped
  split
  · next h =>
    rw [UInt64.toNat_mul, Nat.mod_eq_of_lt h]
    omega
  · next h =>
    rw [toNat_top]
    omega

/-- Cutting the summands off first makes no difference. -/
@[simp] theorem capped_capped_add (m n : Nat) : capped (capped m + n) = capped (m + n) := by
  unfold capped
  omega

@[simp] theorem capped_add_capped (m n : Nat) : capped (m + capped n) = capped (m + n) := by
  unfold capped
  omega

theorem capped_lt_iff {m n : Nat} : capped m < capped n ↔ m < n ∧ m < 18446744073709551615 := by
  unfold capped
  omega

theorem capped_mono {m n : Nat} (h : m ≤ n) : capped m ≤ capped n := by
  unfold capped
  omega

/-! ## The order of the words -/

instance linearOrderUInt64 : LinearOrder UInt64 where
  le_refl a := UInt64.le_refl a
  le_trans _ _ _ := UInt64.le_trans
  lt_iff_le_not_ge a b := by
    rw [UInt64.lt_iff_toNat_lt, UInt64.le_iff_toNat_le, UInt64.le_iff_toNat_le]
    omega
  le_antisymm _ _ := UInt64.le_antisymm
  le_total := UInt64.le_total
  toDecidableLE := inferInstance
  toDecidableLT := inferInstance
  toDecidableEq := inferInstance

end Saturating
