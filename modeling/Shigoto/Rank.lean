import Mathlib.Data.Prod.Lex
import Mathlib.Data.String.Basic
import Shigoto.Saturating
import Shigoto.Sorting

/-!
# Ranking

`rank` orders the eligible units by class, then urgency, then id, and `pick` keeps the first of them.

* `rank_canonical` — with unique ids, the ranking depends on what is pending only, not on its order.
* `urgency_saturates_exactly` — the score is the exact one, cut off at the greatest word.
* `eventually_first_iff` — a unit that is passed over gains urgency, but urgency saturates: against a
  rival whose own score reaches the greatest word, the id alone decides.
-/

namespace Shigoto

open Saturating Sorting

/-- Hard priority tier. The first is scheduled first. -/
inductive PriorityClass
  | critical
  | high
  | normal
  | low
  deriving DecidableEq, Repr

/-- The discriminant. -/
def PriorityClass.tier : PriorityClass → Nat
  | .critical => 0
  | .high => 1
  | .normal => 2
  | .low => 3

theorem PriorityClass.tier_injective : Function.Injective PriorityClass.tier := by
  intro a b
  cases a <;> cases b <;> simp [tier]

instance : LinearOrder PriorityClass :=
  LinearOrder.lift' PriorityClass.tier PriorityClass.tier_injective

/-- Weights for the urgency score. -/
structure UrgencyWeights where
  staleness : UInt64
  behindTarget : UInt64
  drift : UInt64
  fairnessDeficit : UInt64

def UrgencyWeights.default : UrgencyWeights where
  staleness := 1
  behindTarget := 3600
  drift := 600
  fairnessDeficit := 1800

/-- A unit of pending work that can be ordered. -/
class Schedulable (α : Type) where
  schedId : α → String
  priorityClass : α → PriorityClass
  stalenessSecs : α → UInt64
  behindTarget : α → Bool
  driftMagnitude : α → UInt32
  fairnessDeficit : α → UInt64
  eligible : α → UInt64 → Bool

open Schedulable

/-- `(class, Reverse(urgency), id)`, compared lexicographically. -/
abbrev RankKey := PriorityClass ×ₗ UInt64ᵒᵈ ×ₗ String

/-! ## Units as in the crate's own tests -/

structure Mock where
  id : String
  tier : PriorityClass
  staleness : UInt64
  behind : Bool
  drift : UInt32
  deficit : UInt64
  backoffUntil : UInt64
  depsReady : Bool
  deriving DecidableEq

instance : Schedulable Mock where
  schedId := Mock.id
  priorityClass := Mock.tier
  stalenessSecs := Mock.staleness
  behindTarget := Mock.behind
  driftMagnitude := Mock.drift
  fairnessDeficit := Mock.deficit
  eligible m now := m.depsReady && m.backoffUntil ≤ now

/-- The unit with this id, of this class, that nothing speaks for. -/
def Mock.new (id : String) (tier : PriorityClass) : Mock := ⟨id, tier, 0, false, 0, 0, 0, true⟩

section

variable {α : Type} [Schedulable α]

/-- Weighted urgency score; higher runs sooner. -/
def urgency (w : UrgencyWeights) (x : α) : UInt64 :=
  let s := saturatingMul (stalenessSecs x) w.staleness
  let s := if behindTarget x then saturatingAdd s w.behindTarget else s
  let s := saturatingAdd s (saturatingMul (driftMagnitude x).toUInt64 w.drift)
  saturatingAdd s (saturatingMul (fairnessDeficit x) w.fairnessDeficit)

def rankKey (w : UrgencyWeights) (x : α) : RankKey :=
  toLex (priorityClass x, toLex (OrderDual.toDual (urgency w x), schedId x))

/-- Order every eligible unit, most valuable first. -/
def rank (pending : List α) (nowSecs : UInt64) (w : UrgencyWeights) : List α :=
  sortBy (rankKey w) (pending.filter fun d => eligible d nowSecs)

/-- The first `slots` of the ranking. -/
def pick (pending : List α) (nowSecs : UInt64) (w : UrgencyWeights) (slots : Nat) : List α :=
  (rank pending nowSecs w).take slots

/-! ## The order -/

/-- `a` is to run before `b`: a smaller class, or within a class a higher urgency, or a smaller id. -/
def Precedes (w : UrgencyWeights) (a b : α) : Prop :=
  priorityClass a < priorityClass b ∨ priorityClass a = priorityClass b ∧
    (urgency w b < urgency w a ∨ urgency w a = urgency w b ∧ schedId a < schedId b)

theorem rankKey_lt_iff {w : UrgencyWeights} {a b : α} : rankKey w a < rankKey w b ↔ Precedes w a b := by
  rw [rankKey, rankKey, Prod.Lex.toLex_lt_toLex, Prod.Lex.toLex_lt_toLex]
  exact Iff.rfl

variable {pending pending' : List α} {now : UInt64} {w : UrgencyWeights}

theorem mem_rank {a : α} : a ∈ rank pending now w ↔ a ∈ pending ∧ eligible a now = true := by
  rw [rank, (sortBy_perm _).mem_iff, List.mem_filter]

theorem length_rank : (rank pending now w).length = pending.countP fun d => eligible d now := by
  rw [rank, (sortBy_perm _).length_eq, List.countP_eq_length_filter]

/-- Distinct ids make distinct keys. -/
theorem keysDistinct_of_ids (h : (pending.map schedId).Nodup) :
    KeysDistinct (rankKey w) (pending.filter fun d => eligible d now) := by
  intro a ha b hb hkey
  have hid : schedId a = schedId b := congrArg (fun k : RankKey => (ofLex (ofLex k).2).2) hkey
  exact List.inj_on_of_nodup_map h (List.mem_of_mem_filter ha) (List.mem_of_mem_filter hb) hid

theorem rank_nodup (h : (pending.map schedId).Nodup) : (rank pending now w).Nodup :=
  (sortBy_perm _).nodup_iff.mpr (h.of_map.filter _)

theorem rank_pairwise (h : (pending.map schedId).Nodup) :
    (rank pending now w).Pairwise (Precedes w) :=
  (pairwise_lt_sortBy (keysDistinct_of_ids h) (h.of_map.filter _)).imp rankKey_lt_iff.mp

/-- **The order of the slice does not show.** -/
theorem rank_perm (h : (pending.map schedId).Nodup) (hperm : pending.Perm pending') :
    rank pending' now w = rank pending now w :=
  (sortBy_eq_of_perm (keysDistinct_of_ids h) (hperm.filter _)).symm

/-- What is left out comes after all that is picked. -/
theorem precedes_of_left_out (h : (pending.map schedId).Nodup) {slots : Nat} {a b : α}
    (ha : a ∈ pending) (heligible : eligible a now = true) (hout : a ∉ pick pending now w slots)
    (hb : b ∈ pick pending now w slots) : Precedes w b a :=
  rel_of_mem_take_of_not_mem_take (rank_pairwise h) hb (mem_rank.mpr ⟨ha, heligible⟩) hout

theorem Precedes.asymm {a b : α} (h : Precedes w a b) : ¬ Precedes w b a := by
  rw [← rankKey_lt_iff] at h ⊢
  exact h.asymm

theorem Precedes.class_le {a b : α} (h : Precedes w a b) : priorityClass a ≤ priorityClass b := by
  obtain hlt | ⟨heq, _⟩ := h
  · exact hlt.le
  · exact heq.le

/-- What `rank` and `pick` are to return. -/
structure RankCanonical (pending : List α) (now : UInt64) (w : UrgencyWeights) : Prop where
  exact : ∀ a, a ∈ rank pending now w ↔ a ∈ pending ∧ eligible a now = true
  once : (rank pending now w).Nodup
  ordered : (rank pending now w).Pairwise (Precedes w)
  permuted : ∀ pending', pending.Perm pending' → rank pending' now w = rank pending now w
  picked : ∀ slots, pick pending now w slots <+: rank pending now w ∧
    (pick pending now w slots).length = min slots (pending.countP fun d => eligible d now)
  /-- No unit that is left out precedes a picked one. -/
  fair : ∀ slots, ∀ a ∈ pending, a ∉ pick pending now w slots → ∀ b ∈ pick pending now w slots,
    ¬ (eligible a now = true ∧ Precedes w a b)
  /-- Nor is its tier above that of a picked one. -/
  tiers : ∀ slots, ∀ a ∈ pending, a ∉ pick pending now w slots → ∀ b ∈ pick pending now w slots,
    ¬ (eligible a now = true ∧ priorityClass a < priorityClass b)

/-- **Ranking and picking are canonical** where ids are unique. -/
theorem rank_canonical (h : (pending.map schedId).Nodup) : RankCanonical pending now w where
  exact _ := mem_rank
  once := rank_nodup h
  ordered := rank_pairwise h
  permuted _ := rank_perm h
  picked slots := ⟨List.take_prefix _ _, by rw [pick, List.length_take, length_rank]⟩
  fair slots a ha hout b hb := fun ⟨heligible, hprecedes⟩ =>
    hprecedes.asymm (precedes_of_left_out h ha heligible hout hb)
  tiers slots a ha hout b hb := fun ⟨heligible, hclass⟩ =>
    hclass.not_ge (precedes_of_left_out h ha heligible hout hb).class_le

theorem rank_canonical_mocks :
    RankCanonical [Mock.new "loud" .normal, Mock.new "crit" .critical, Mock.new "quiet" .normal] 0
      .default :=
  rank_canonical (by decide +kernel)

/-! ## Starvation -/

/-- The urgency without saturation. -/
def exactUrgency (w : UrgencyWeights) (x : α) : Nat :=
  (stalenessSecs x).toNat * w.staleness.toNat + (if behindTarget x then w.behindTarget.toNat else 0) +
    (driftMagnitude x).toNat * w.drift.toNat + (fairnessDeficit x).toNat * w.fairnessDeficit.toNat

theorem toNat_urgency (w : UrgencyWeights) (x : α) :
    (urgency w x).toNat = capped (exactUrgency w x) := by
  unfold urgency exactUrgency
  split <;> simp [toNat_saturatingAdd, toNat_saturatingMul]

theorem urgency_lt_iff {a b : α} : urgency w a < urgency w b ↔
    exactUrgency w a < exactUrgency w b ∧ exactUrgency w a < 18446744073709551615 := by
  rw [UInt64.lt_iff_toNat_lt, toNat_urgency, toNat_urgency, capped_lt_iff]

/-- A unit as its deficit varies, everything else staying as it is. -/
structure OnlyDeficit (a : UInt64 → α) : Prop where
  deficit : ∀ d, fairnessDeficit (a d) = d
  id : ∀ d d', schedId (a d) = schedId (a d')
  tier : ∀ d d', priorityClass (a d) = priorityClass (a d')
  staleness : ∀ d d', stalenessSecs (a d) = stalenessSecs (a d')
  behind : ∀ d d', behindTarget (a d) = behindTarget (a d')
  drift : ∀ d d', driftMagnitude (a d) = driftMagnitude (a d')
  gate : ∀ d d' now, eligible (a d) now = eligible (a d') now

theorem Mock.onlyDeficit (m : Mock) : OnlyDeficit fun d => { m with deficit := d } where
  deficit _ := rfl
  id _ _ := rfl
  tier _ _ := rfl
  staleness _ _ := rfl
  behind _ _ := rfl
  drift _ _ := rfl
  gate _ _ _ := rfl

/-- From some deficit on, `a` is ranked before `b`, whatever else is pending. -/
def EventuallyFirst (w : UrgencyWeights) (now : UInt64) (a : UInt64 → α) (b : α) : Prop :=
  ∃ D, ∀ d, D ≤ d → ∀ pending, a d ∈ pending → b ∈ pending → Before (rank pending now w) (a d) b

theorem rank_before {a b : α} (ha : a ∈ pending) (hb : b ∈ pending) (hea : eligible a now = true)
    (heb : eligible b now = true) (h : Precedes w a b) : Before (rank pending now w) a b :=
  before_sortBy (List.mem_filter.mpr ⟨ha, hea⟩) (List.mem_filter.mpr ⟨hb, heb⟩) (rankKey_lt_iff.mpr h)

theorem rank_pair_not_before {a b : α} (hea : eligible a now = true) (heb : eligible b now = true)
    (h : ¬ Precedes w a b) : ¬ Before (rank [b, a] now w) a b := by
  have hfilter : [b, a].filter (fun d => eligible d now) = [b, a] := by simp [hea, heb]
  rw [rank, hfilter]
  exact not_before_sortBy_pair (not_lt.mp fun hlt => h (rankKey_lt_iff.mp hlt))

/-- The deficit alone makes the exact urgency as large as one likes. -/
theorem OnlyDeficit.le_exactUrgency {a : UInt64 → α} (h : OnlyDeficit a) (hw : 1 ≤ w.fairnessDeficit)
    (d : UInt64) : d.toNat ≤ exactUrgency w (a d) := by
  have hone : 1 ≤ w.fairnessDeficit.toNat := UInt64.le_iff_toNat_le.mp hw
  have hmul : d.toNat ≤ d.toNat * w.fairnessDeficit.toNat := Nat.le_mul_of_pos_right _ hone
  rw [exactUrgency, h.deficit d]
  omega

/-- **A rival is overtaken unless its score is saturated and its id is not above.** -/
theorem eventually_first_iff {a : UInt64 → α} {b : α} (hw : 1 ≤ w.fairnessDeficit) (ha : OnlyDeficit a)
    (hclass : ∀ d, priorityClass (a d) = priorityClass b) (hea : ∀ d, eligible (a d) now = true)
    (heb : eligible b now = true) :
    EventuallyFirst w now a b ↔
      exactUrgency w b < 18446744073709551615 ∨ schedId (a 0) < schedId b := by
  constructor
  · rintro ⟨D, hfirst⟩
    by_contra! hcond
    obtain ⟨hsaturated, hid⟩ := hcond
    -- the two alone, the rival first: no deficit lifts `a` above a saturated score
    refine rank_pair_not_before (hea D) heb ?_ (hfirst D le_rfl [b, a D] (by simp) (by simp))
    rintro (htier | ⟨_, hurgency | ⟨_, hlt⟩⟩)
    · exact htier.ne (hclass D)
    · exact absurd (urgency_lt_iff.mp hurgency).2 (Nat.not_lt.mpr hsaturated)
    · rw [ha.id D 0] at hlt
      exact hlt.not_ge hid
  · rintro (hlt | hid)
    · -- One round more than the rival's score is enough.
      have hword : (UInt64.ofNat (exactUrgency w b + 1)).toNat = exactUrgency w b + 1 :=
        UInt64.toNat_ofNat_of_lt' (by simp only [UInt64.size]; omega)
      refine ⟨UInt64.ofNat (exactUrgency w b + 1), fun d hd pending hpa hpb => ?_⟩
      rw [UInt64.le_iff_toNat_le, hword] at hd
      have hle := ha.le_exactUrgency hw d
      refine rank_before hpa hpb (hea d) heb (.inr ⟨hclass d, .inl (urgency_lt_iff.mpr ⟨?_, hlt⟩)⟩)
      omega
    · -- at the greatest deficit both may be saturated; then the id decides for `a`
      refine ⟨top, fun d hd pending hpa hpb => ?_⟩
      rw [UInt64.le_iff_toNat_le, toNat_top] at hd
      have hle := ha.le_exactUrgency hw d
      have hnot : ¬ urgency w (a d) < urgency w b := fun h => by
        have := (urgency_lt_iff.mp h).2
        omega
      refine rank_before hpa hpb (hea d) heb (.inr ⟨hclass d, ?_⟩)
      obtain heq | hlt := (not_lt.mp hnot).eq_or_lt
      · exact .inr ⟨heq.symm, ha.id d 0 ▸ hid⟩
      · exact .inl hlt

/-- A busy unit is overtaken. -/
theorem eventually_first_busy :
    EventuallyFirst .default 0 (fun d => { Mock.new "starved" .normal with deficit := d })
      { Mock.new "busy" .normal with drift := 5 } :=
  (eventually_first_iff (w := .default) (b := { Mock.new "busy" .normal with drift := 5 }) (by decide)
    (Mock.onlyDeficit (Mock.new "starved" .normal)) (fun _ => rfl) (fun _ => rfl) rfl).mpr
    (.inl (by decide +kernel))

/-- A unit whose staleness alone saturates the score is never overtaken by one with a larger id. -/
theorem saturated_never_overtaken :
    let starved := fun d => { Mock.new "zeta" .normal with deficit := d }
    let stale := { Mock.new "alpha" .normal with staleness := 18446744073709551615 }
    (∀ d, starved d ≠ stale) ∧ ¬ EventuallyFirst .default 0 starved stale := by
  intro starved stale
  have hid : ("zeta" : String) ≠ "alpha" := by decide
  refine ⟨fun d h => hid (congrArg Mock.id h), ?_⟩
  rintro ⟨D, hfirst⟩
  have hle : D ≤ top := by
    have hlt := D.toNat_lt
    rw [UInt64.le_iff_toNat_le, toNat_top]
    omega
  exact absurd (hfirst top hle [stale, starved top] (by simp) (by simp)) (by decide +kernel)

/-! ## Exact scores -/

/-- No accessor of `x` that the score reads is above that of `y`. -/
structure AccessorsLE (x y : α) : Prop where
  staleness : stalenessSecs x ≤ stalenessSecs y
  behind : behindTarget x = true → behindTarget y = true
  drift : driftMagnitude x ≤ driftMagnitude y
  deficit : fairnessDeficit x ≤ fairnessDeficit y

structure WeightsLE (w w' : UrgencyWeights) : Prop where
  staleness : w.staleness ≤ w'.staleness
  behindTarget : w.behindTarget ≤ w'.behindTarget
  drift : w.drift ≤ w'.drift
  fairnessDeficit : w.fairnessDeficit ≤ w'.fairnessDeficit

theorem exactUrgency_mono {w w' : UrgencyWeights} {x y : α} (hw : WeightsLE w w')
    (hxy : AccessorsLE x y) : exactUrgency w x ≤ exactUrgency w' y := by
  have hstaleness := Nat.mul_le_mul (UInt64.le_iff_toNat_le.mp hxy.staleness)
    (UInt64.le_iff_toNat_le.mp hw.staleness)
  have hdrift := Nat.mul_le_mul (UInt32.le_iff_toNat_le.mp hxy.drift)
    (UInt64.le_iff_toNat_le.mp hw.drift)
  have hdeficit := Nat.mul_le_mul (UInt64.le_iff_toNat_le.mp hxy.deficit)
    (UInt64.le_iff_toNat_le.mp hw.fairnessDeficit)
  have hbehind : (if behindTarget x then w.behindTarget.toNat else 0) ≤
      if behindTarget y then w'.behindTarget.toNat else 0 := by
    have := UInt64.le_iff_toNat_le.mp hw.behindTarget
    have := hxy.behind
    grind
  rw [exactUrgency, exactUrgency]
  omega

theorem urgency_mono {w w' : UrgencyWeights} {x y : α} (hle : exactUrgency w x ≤ exactUrgency w' y) :
    urgency w x ≤ urgency w' y := by
  rw [UInt64.le_iff_toNat_le, toNat_urgency, toNat_urgency]
  exact capped_mono hle

/-- Within a class the ranking never lets the urgency rise. -/
theorem urgency_le_of_rank {a b : α} (hclass : priorityClass a = priorityClass b)
    (hsub : [a, b].Sublist (rank pending now w)) : urgency w b ≤ urgency w a := by
  have hkey : rankKey w a ≤ rankKey w b := by simpa using (pairwise_sortBy _).sublist hsub
  rw [rankKey, rankKey, Prod.Lex.toLex_le_toLex, Prod.Lex.toLex_le_toLex] at hkey
  obtain hlt | ⟨_, hlt | ⟨heq, _⟩⟩ := hkey
  · exact absurd hclass hlt.ne
  · exact (OrderDual.toDual_lt_toDual.mp hlt).le
  · exact (OrderDual.toDual_inj.mp heq).ge

/-- What the score promises. -/
structure SaturatesExactly (α : Type) [Schedulable α] (w : UrgencyWeights) : Prop where
  exact : ∀ x : α, (urgency w x).toNat = min 18446744073709551615 (exactUrgency w x)
  monotone : ∀ (w' : UrgencyWeights) (x y : α), WeightsLE w w' → AccessorsLE x y →
    urgency w x ≤ urgency w' y
  ordered : ∀ x y : α, exactUrgency w x < exactUrgency w y → ¬ urgency w y < urgency w x
  /-- In the ranking nothing with a smaller urgency comes before its class mates ... -/
  ranked : ∀ (pending : List α) (now : UInt64) (a b : α), priorityClass a = priorityClass b →
    [a, b].Sublist (rank pending now w) → urgency w b ≤ urgency w a
  /-- ... so a larger exact score comes second only where both are cut off. -/
  inverted : ∀ (pending : List α) (now : UInt64) (a b : α), priorityClass a = priorityClass b →
    exactUrgency w a < exactUrgency w b → [a, b].Sublist (rank pending now w) →
    18446744073709551615 ≤ exactUrgency w a

/-- **The score is the exact one, cut off once.** -/
theorem urgency_saturates_exactly (w : UrgencyWeights) : SaturatesExactly α w where
  exact x := by
    rw [toNat_urgency, capped, min_comm]
  monotone _ _ _ hw hxy := urgency_mono (exactUrgency_mono hw hxy)
  ordered _ _ hlt := (urgency_mono hlt.le).not_gt
  ranked _ _ _ _ hclass hsub := urgency_le_of_rank hclass hsub
  inverted _ _ a b hclass hlt hsub := by
    by_contra! hbelow
    exact absurd (urgency_lt_iff.mpr ⟨hlt, hbelow⟩) (urgency_le_of_rank hclass hsub).not_gt

end

end Shigoto
