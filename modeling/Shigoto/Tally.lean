import Mathlib.Algebra.BigOperators.Group.List.Lemmas
import Mathlib.Algebra.GroupWithZero.Nat
import Shigoto.Map

/-!
# Tallies

A loop that counts keys in a map of 32-bit counters. A counter is the number of occurrences, as far as 32
bits hold it (`get?_tally`); where they do, the counters add up to the number of keys (`sum_tally`).
-/

namespace Tally

variable {κ : Type} [DecidableEq κ]

/-- `*counts.entry(k).or_insert(0) += 1`. -/
def bump (counts : Map κ UInt32) (k : κ) : Map κ UInt32 :=
  counts.insert k ((Map.get? counts k).getD 0 + 1)

def tally (ks : List κ) : Map κ UInt32 := ks.foldl bump ∅

/-- What is counted under `k`. -/
def counted (counts : Map κ UInt32) (k : κ) : UInt32 := (Map.get? counts k).getD 0

theorem counted_bump (counts : Map κ UInt32) (k k' : κ) :
    counted (bump counts k) k' = counted counts k' + if k = k' then 1 else 0 := by
  unfold counted bump
  grind [Map.get?_insert]

theorem counted_foldl (ks : List κ) (counts : Map κ UInt32) (k : κ) :
    counted (ks.foldl bump counts) k = counted counts k + UInt32.ofNat (ks.count k) := by
  induction ks generalizing counts with
  | nil => simp [counted]
  | cons k' ks ih =>
    have hone : UInt32.ofNat (if k' == k then 1 else 0) = if k' = k then 1 else 0 := by
      by_cases heq : k' = k <;> simp [heq]
    rw [List.foldl_cons, ih, counted_bump, List.count_cons, UInt32.ofNat_add, hone, UInt32.add_assoc,
      UInt32.add_comm (UInt32.ofNat _)]

theorem counted_tally (ks : List κ) (k : κ) : counted (tally ks) k = UInt32.ofNat (ks.count k) := by
  rw [tally, counted_foldl]
  simp [counted]

/-- A counter that 32 bits can hold is exact. -/
theorem toNat_counted {ks : List κ} (hlen : ks.length < 4294967296) (k : κ) :
    (counted (tally ks) k).toNat = ks.count k := by
  rw [counted_tally]
  exact UInt32.toNat_ofNat_of_lt' (Nat.lt_of_le_of_lt List.count_le_length hlen)

theorem mem_keys_bump {counts : Map κ UInt32} {k k' : κ} :
    k' ∈ (bump counts k).keys ↔ k' = k ∨ k' ∈ counts.keys := by
  have hmem : ∀ {m : Map κ UInt32}, k' ∈ m.keys ↔ (Map.get? m k').isSome = true := Map.mem_iff
  rw [hmem, hmem, bump, Map.get?_insert]
  grind

/-- Only what occurs is listed. -/
theorem mem_keys_tally {ks : List κ} {k : κ} : k ∈ (tally ks).keys ↔ k ∈ ks := by
  have hfold : ∀ counts : Map κ UInt32, k ∈ (ks.foldl bump counts).keys ↔ k ∈ ks ∨ k ∈ counts.keys := by
    induction ks with
    | nil => simp
    | cons k' ks ih =>
      intro counts
      rw [List.foldl_cons, ih, mem_keys_bump]
      grind
  rw [tally, hfold]
  exact or_iff_left List.not_mem_nil

/-- **The counters add up to the number of keys.** -/
theorem sum_tally {ks : List κ} (hlen : ks.length < 4294967296) :
    ((tally ks).entries.map fun e => e.2.toNat).sum = ks.length := by
  have hvalue : ∀ e ∈ (tally ks).entries, e.2.toNat = ks.count e.1 := fun e he => by
    rw [← toNat_counted hlen, counted, (Map.mem_entries_iff _ e.1 e.2).mp he]
    rfl
  have hkeys : (tally ks).keys.Perm ks.dedup :=
    (List.perm_ext_iff_of_nodup (tally ks).keys_nodup ks.nodup_dedup).mpr fun k => by
      rw [mem_keys_tally, List.mem_dedup]
  calc ((tally ks).entries.map fun e => e.2.toNat).sum
      = ((tally ks).keys.map fun k => ks.count k).sum := by
        rw [List.map_congr_left hvalue, AList.keys, List.keys, List.map_map]
        rfl
    _ = (ks.dedup.map fun k => ks.count k).sum := (hkeys.map _).sum_eq
    _ = ks.length := List.sum_map_count_dedup_eq_length ks

end Tally
