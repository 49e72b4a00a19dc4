import Shigoto.Types
import Mathlib.Tactic.Common

/-!
# The three-dimension parallelism envelope

`BudgetTree` as the source has it: optional caps and live counters for the whole scheduler, for each
kind and for each scope. Over it, one abstract reading: a *dimension* is the whole scheduler, one
kind or one scope; it covers some job ids, it has a counter and possibly a cap. `Holds` says that
the counters of some dimensions count a multiset of held slots, and the two operations add and
remove one slot.
-/

namespace Shigoto

/-! ## The code's model -/

structure BudgetSpec where
  maxConcurrent : UInt32
  deriving DecidableEq, Repr

inductive BudgetError
  | globalExhausted
  | kindExhausted (kind : String)
  | scopeExhausted
  deriving DecidableEq, Repr

structure BudgetTree where
  /-- Whole-scheduler cap; `none` is unbounded. -/
  global : Option BudgetSpec
  byKind : Map JobKindId BudgetSpec
  byScope : Map JobScope BudgetSpec
  runningGlobal : UInt32
  runningByKind : Map JobKindId UInt32
  runningByScope : Map JobScope UInt32

/-- `u32::saturating_add(1)`. -/
def saturatingSucc (c : UInt32) : UInt32 := if c = 4294967295 then c else c + 1

/-- `u32::saturating_sub(1)`. -/
def saturatingPred (c : UInt32) : UInt32 := if c = 0 then c else c - 1

namespace BudgetTree

/-- `BudgetTree::new`: no caps, nothing running. -/
def new : BudgetTree where
  global := none
  byKind := ∅
  byScope := ∅
  runningGlobal := 0
  runningByKind := ∅
  runningByScope := ∅

/-- Current running count for a kind. -/
def runningKind (b : BudgetTree) (kind : JobKindId) : UInt32 :=
  (b.runningByKind.get? kind).getD 0

/-- Current running count for a scope. -/
def runningScope (b : BudgetTree) (scope : JobScope) : UInt32 :=
  (b.runningByScope.get? scope).getD 0

/-- A cap that is set and already reached. -/
def exhausted (spec : Option BudgetSpec) (running : UInt32) : Bool :=
  spec.any fun s => decide (running ≥ s.maxConcurrent)

/-- Reserve a slot for `id` in all three dimensions, or in none. -/
def tryAllocate (b : BudgetTree) (id : JobId) : Except BudgetError Unit × BudgetTree :=
  if exhausted b.global b.runningGlobal then (.error .globalExhausted, b)
  else if exhausted (b.byKind.get? id.kind) (b.runningKind id.kind) then
    (.error (.kindExhausted id.kind.name), b)
  else if exhausted (b.byScope.get? id.scope) (b.runningScope id.scope) then
    (.error .scopeExhausted, b)
  else
    (.ok (), { b with
      runningGlobal := saturatingSucc b.runningGlobal
      -- a plain `+= 1` on an entry that starts at 0
      runningByKind := b.runningByKind.insert id.kind (b.runningKind id.kind + 1)
      runningByScope := b.runningByScope.insert id.scope (b.runningScope id.scope + 1) })

/-- Release a slot held by `id`; a counter that is absent or zero stays as it is. -/
def release (b : BudgetTree) (id : JobId) : BudgetTree :=
  { b with
    runningGlobal := saturatingPred b.runningGlobal
    runningByKind := match b.runningByKind.get? id.kind with
      | some c => b.runningByKind.insert id.kind (saturatingPred c)
      | none => b.runningByKind
    runningByScope := match b.runningByScope.get? id.scope with
      | some c => b.runningByScope.insert id.scope (saturatingPred c)
      | none => b.runningByScope }

end BudgetTree

/-! ## Dimensions -/

/-- A dimension of the envelope. -/
inductive Dim
  | global
  | kind (k : JobKindId)
  | scope (s : JobScope)
  deriving DecidableEq, Repr

/-- Whether a slot for `id` counts in this dimension. -/
def Dim.covers : Dim → JobId → Bool
  | .global, _ => true
  | .kind k, id => decide (id.kind = k)
  | .scope s, id => decide (id.scope = s)

namespace BudgetTree

def counter (b : BudgetTree) : Dim → UInt32
  | .global => b.runningGlobal
  | .kind k => b.runningKind k
  | .scope s => b.runningScope s

def cap (b : BudgetTree) : Dim → Option UInt32
  | .global => b.global.map (·.maxConcurrent)
  | .kind k => (b.byKind.get? k).map (·.maxConcurrent)
  | .scope s => (b.byScope.get? s).map (·.maxConcurrent)

/-- A budget whose slots are all free. -/
def Idle (b : BudgetTree) : Prop := ∀ d, b.counter d = 0

/-- Every dimension that covers `id` is uncapped or below its cap. -/
def HasSlack (b : BudgetTree) (id : JobId) : Prop :=
  ∀ d : Dim, d.covers id = true → ∀ c, b.cap d = some c → b.counter d < c

theorem exhausted_eq_false {spec : Option BudgetSpec} {running : UInt32} :
    exhausted spec running = false ↔ ∀ c, spec.map (·.maxConcurrent) = some c → running < c := by
  cases spec with
  | none => simp [exhausted]
  | some s => simp [exhausted]

/-- The code's three checks. -/
theorem hasSlack_iff (b : BudgetTree) (id : JobId) :
    b.HasSlack id ↔ exhausted b.global b.runningGlobal = false ∧
      exhausted (b.byKind.get? id.kind) (b.runningKind id.kind) = false ∧
      exhausted (b.byScope.get? id.scope) (b.runningScope id.scope) = false := by
  simp only [exhausted_eq_false]
  constructor
  · intro hs
    exact ⟨hs .global rfl, hs (.kind id.kind) (by simp [Dim.covers]),
      hs (.scope id.scope) (by simp [Dim.covers])⟩
  · rintro ⟨hg, hk, hsc⟩ d hd
    cases d with
    | global => exact hg
    | kind k => obtain rfl : id.kind = k := by simpa [Dim.covers] using hd
                exact hk
    | scope s => obtain rfl : id.scope = s := by simpa [Dim.covers] using hd
                 exact hsc

instance (b : BudgetTree) (id : JobId) : Decidable (b.HasSlack id) :=
  decidable_of_iff _ (b.hasSlack_iff id).symm

/-! ## What the two operations do -/

/-- A slot is granted exactly when every dimension has slack. -/
theorem tryAllocate_ok_iff (b : BudgetTree) (id : JobId) :
    (b.tryAllocate id).1 = .ok () ↔ b.HasSlack id := by
  rw [hasSlack_iff, tryAllocate]
  split
  · next hg => simp [hg]
  · split
    · next hk => simp [hk]
    · split
      · next hsc => simp [hsc]
      · next hg hk hsc => simp [hg, hk, hsc]

/-- A refused request changes nothing. -/
theorem tryAllocate_error {b : BudgetTree} {id : JobId} {e : BudgetError}
    (h : (b.tryAllocate id).1 = .error e) : (b.tryAllocate id).2 = b := by
  unfold tryAllocate at h ⊢
  split
  · rfl
  · split
    · rfl
    · split
      · rfl
      · next hg hk hs => simp [hg, hk, hs] at h

@[simp] theorem cap_tryAllocate (b : BudgetTree) (id : JobId) :
    (b.tryAllocate id).2.cap = b.cap := by
  unfold tryAllocate
  split
  · rfl
  · split
    · rfl
    · split <;> rfl

@[simp] theorem cap_release (b : BudgetTree) (id : JobId) : (b.release id).cap = b.cap := rfl

private theorem toNat_add_one {c : UInt32} (h : c.toNat + 1 < 4294967296) :
    (c + 1).toNat = c.toNat + 1 := by
  rw [UInt32.toNat_add]
  exact Nat.mod_eq_of_lt h

private theorem toNat_saturatingSucc {c : UInt32} (h : c.toNat + 1 < 4294967296) :
    (saturatingSucc c).toNat = c.toNat + 1 := by
  unfold saturatingSucc
  split
  · next hc => subst hc; simp at h
  · exact toNat_add_one h

private theorem toNat_saturatingPred (c : UInt32) : (saturatingPred c).toNat = c.toNat - 1 := by
  unfold saturatingPred
  split
  · next hc => subst hc; rfl
  · next hc =>
    have hpos : 1 ≤ c.toNat := by
      rcases Nat.eq_zero_or_pos c.toNat with h0 | h0
      · exact absurd (UInt32.toNat_inj.mp h0) hc
      · exact h0
    exact UInt32.toNat_sub_of_le c 1 (UInt32.le_iff_toNat_le.mpr hpos)

/-- A granted request raises by one exactly the counters of the dimensions that cover `id`, as long
as they do not overflow. -/
theorem counter_tryAllocate {b : BudgetTree} {id : JobId} (h : (b.tryAllocate id).1 = .ok ())
    (d : Dim) (hd : d.covers id = true → (b.counter d).toNat + 1 < 4294967296) :
    ((b.tryAllocate id).2.counter d).toNat =
      (b.counter d).toNat + if d.covers id then 1 else 0 := by
  have hok : (b.tryAllocate id).2 = { b with
      runningGlobal := saturatingSucc b.runningGlobal
      runningByKind := b.runningByKind.insert id.kind (b.runningKind id.kind + 1)
      runningByScope := b.runningByScope.insert id.scope (b.runningScope id.scope + 1) } := by
    unfold tryAllocate at h ⊢
    split at h
    · simp at h
    · split at h
      · simp at h
      · split at h
        · simp at h
        · next hg hk hs => simp [hg, hk, hs]
  rw [hok]
  cases d with
  | global => simpa [counter, Dim.covers] using toNat_saturatingSucc (hd rfl)
  | kind k =>
    by_cases hk : id.kind = k
    · subst hk
      have hlt := hd (by simp [Dim.covers])
      simpa [counter, Dim.covers, runningKind] using toNat_add_one hlt
    · have hne : k ≠ id.kind := fun h => hk h.symm
      simp [counter, Dim.covers, runningKind, hk, Map.get?_insert_ne _ _ hne]
  | scope s =>
    by_cases hs : id.scope = s
    · subst hs
      have hlt := hd (by simp [Dim.covers])
      simpa [counter, Dim.covers, runningScope] using toNat_add_one hlt
    · have hne : s ≠ id.scope := fun h => hs h.symm
      simp [counter, Dim.covers, runningScope, hs, Map.get?_insert_ne _ _ hne]

/-- `release` lowers by one the counters of the dimensions that cover `id`, never below zero. -/
theorem counter_release (b : BudgetTree) (id : JobId) (d : Dim) :
    ((b.release id).counter d).toNat =
      (b.counter d).toNat - if d.covers id then 1 else 0 := by
  cases d with
  | global => simpa [counter, release, Dim.covers] using toNat_saturatingPred b.runningGlobal
  | kind k =>
    by_cases hk : id.kind = k
    · subst hk
      cases hget : b.runningByKind.get? id.kind with
      | none => simp [counter, release, Dim.covers, runningKind, hget]
      | some c => simpa [counter, release, Dim.covers, runningKind, hget]
          using toNat_saturatingPred c
    · have hne : k ≠ id.kind := fun h => hk h.symm
      cases hget : b.runningByKind.get? id.kind with
      | none => simp [counter, release, Dim.covers, runningKind, hget, hk]
      | some c => simp [counter, release, Dim.covers, runningKind, hget, hk,
          Map.get?_insert_ne _ _ hne]
  | scope s =>
    by_cases hs : id.scope = s
    · subst hs
      cases hget : b.runningByScope.get? id.scope with
      | none => simp [counter, release, Dim.covers, runningScope, hget]
      | some c => simpa [counter, release, Dim.covers, runningScope, hget]
          using toNat_saturatingPred c
    · have hne : s ≠ id.scope := fun h => hs h.symm
      cases hget : b.runningByScope.get? id.scope with
      | none => simp [counter, release, Dim.covers, runningScope, hget, hs]
      | some c => simp [counter, release, Dim.covers, runningScope, hget, hs,
          Map.get?_insert_ne _ _ hne]

/-! ## Equal counters -/

/-- The same caps and the same counters, whatever the order in which the maps list them. -/
structure Alike (b b' : BudgetTree) : Prop where
  global : b'.global = b.global
  byKind : b'.byKind = b.byKind
  byScope : b'.byScope = b.byScope
  runningGlobal : b'.runningGlobal = b.runningGlobal
  runningByKind : Map.get? b'.runningByKind = Map.get? b.runningByKind
  runningByScope : Map.get? b'.runningByScope = Map.get? b.runningByScope

section

variable {b b' b'' : BudgetTree}

theorem Alike.refl (b : BudgetTree) : b.Alike b := ⟨rfl, rfl, rfl, rfl, rfl, rfl⟩

theorem Alike.symm (h : b.Alike b') : b'.Alike b :=
  ⟨h.global.symm, h.byKind.symm, h.byScope.symm, h.runningGlobal.symm, h.runningByKind.symm,
    h.runningByScope.symm⟩

theorem Alike.trans (h : b.Alike b') (h' : b'.Alike b'') : b.Alike b'' :=
  ⟨h'.global.trans h.global, h'.byKind.trans h.byKind, h'.byScope.trans h.byScope,
    h'.runningGlobal.trans h.runningGlobal, h'.runningByKind.trans h.runningByKind,
    h'.runningByScope.trans h.runningByScope⟩

theorem Alike.counter (h : b.Alike b') : b'.counter = b.counter := by
  funext d
  cases d with
  | global => exact h.runningGlobal
  | kind k => exact congrArg (fun c => c.getD 0) (congrFun h.runningByKind k)
  | scope s => exact congrArg (fun c => c.getD 0) (congrFun h.runningByScope s)

/-- Alike trees give the same answer and stay alike. -/
theorem Alike.tryAllocate (h : b.Alike b') (id : JobId) :
    (b'.tryAllocate id).1 = (b.tryAllocate id).1 ∧
      (b.tryAllocate id).2.Alike (b'.tryAllocate id).2 := by
  have hkind : b'.runningKind id.kind = b.runningKind id.kind := congrFun h.counter (.kind id.kind)
  have hscope : b'.runningScope id.scope = b.runningScope id.scope :=
    congrFun h.counter (.scope id.scope)
  unfold BudgetTree.tryAllocate
  rw [h.global, h.byKind, h.byScope, h.runningGlobal, hkind, hscope]
  split_ifs
  · exact ⟨rfl, h⟩
  · exact ⟨rfl, h⟩
  · exact ⟨rfl, h⟩
  · refine ⟨rfl, rfl, rfl, rfl, rfl, ?_, ?_⟩
    · rw [Map.get?_insert_eq, Map.get?_insert_eq, h.runningByKind]
    · rw [Map.get?_insert_eq, Map.get?_insert_eq, h.runningByScope]

theorem get?_runningByKind_release (b : BudgetTree) (id : JobId) :
    Map.get? (b.release id).runningByKind =
      modifyAt (Map.get? b.runningByKind) id.kind fun c => c.map saturatingPred := by
  funext k
  rw [modifyAt_apply]
  unfold release
  cases hget : Map.get? b.runningByKind id.kind with
  | none =>
    show Map.get? b.runningByKind k = _
    split
    · next hk => rw [hk, hget]; rfl
    · rfl
  | some c => exact Map.get?_insert _ _ _ _

theorem get?_runningByScope_release (b : BudgetTree) (id : JobId) :
    Map.get? (b.release id).runningByScope =
      modifyAt (Map.get? b.runningByScope) id.scope fun c => c.map saturatingPred := by
  funext s
  rw [modifyAt_apply]
  unfold release
  cases hget : Map.get? b.runningByScope id.scope with
  | none =>
    show Map.get? b.runningByScope s = _
    split
    · next hs => rw [hs, hget]; rfl
    · rfl
  | some c => exact Map.get?_insert _ _ _ _

theorem Alike.release (h : b.Alike b') (id : JobId) : (b.release id).Alike (b'.release id) :=
  ⟨h.global, h.byKind, h.byScope, congrArg saturatingPred h.runningGlobal,
    by rw [get?_runningByKind_release, get?_runningByKind_release, h.runningByKind],
    by rw [get?_runningByScope_release, get?_runningByScope_release, h.runningByScope]⟩

/-- **Slots may be given back in any order.** -/
theorem release_comm (b : BudgetTree) (id id' : JobId) :
    ((b.release id).release id').Alike ((b.release id').release id) := by
  refine ⟨rfl, rfl, rfl, rfl, ?_, ?_⟩
  · rw [get?_runningByKind_release, get?_runningByKind_release, get?_runningByKind_release,
      get?_runningByKind_release]
    exact modifyAt_comm _ fun _ _ => rfl
  · rw [get?_runningByScope_release, get?_runningByScope_release, get?_runningByScope_release,
      get?_runningByScope_release]
    exact modifyAt_comm _ fun _ _ => rfl

end

/-! ## Held slots -/

/-- How many of the held slots count in a dimension. -/
def heldIn (d : Dim) (held : Multiset JobId) : Nat := held.countP fun id => d.covers id = true

/-- The counters of the dimensions in `dims` count the held slots. -/
def Holds (b : BudgetTree) (dims : Dim → Prop) (held : Multiset JobId) : Prop :=
  ∀ d, dims d → (b.counter d).toNat = heldIn d held

/-- No dimension holds more slots than its cap. -/
def Within (b : BudgetTree) (held : Multiset JobId) : Prop :=
  ∀ d c, b.cap d = some c → heldIn d held ≤ c.toNat

theorem heldIn_cons (d : Dim) (id : JobId) (held : Multiset JobId) :
    heldIn d (id ::ₘ held) = heldIn d held + if d.covers id then 1 else 0 :=
  Multiset.countP_cons _ _ _

theorem heldIn_erase (d : Dim) {id : JobId} {held : Multiset JobId} (h : id ∈ held) :
    heldIn d (held.erase id) = heldIn d held - if d.covers id then 1 else 0 := by
  have hcons := heldIn_cons d id (held.erase id)
  rw [Multiset.cons_erase h] at hcons
  omega

theorem heldIn_le_card (d : Dim) (held : Multiset JobId) : heldIn d held ≤ Multiset.card held :=
  Multiset.countP_le_card _ _

theorem heldIn_mono (d : Dim) {held held' : Multiset JobId} (h : held ≤ held') :
    heldIn d held ≤ heldIn d held' := Multiset.countP_le_of_le _ h

theorem Holds.mono {b : BudgetTree} {dims dims' : Dim → Prop} {held : Multiset JobId}
    (h : b.Holds dims held) (hsub : ∀ d, dims' d → dims d) : b.Holds dims' held :=
  fun d hd => h d (hsub d hd)

/-- Granting a slot adds it to the held ones. A capped counter is below its cap and so cannot
overflow; for the others fewer than 2^32 slots must be held. -/
theorem Holds.allocate {b : BudgetTree} {dims : Dim → Prop} {held : Multiset JobId} {id : JobId}
    (h : b.Holds dims held) (hok : (b.tryAllocate id).1 = .ok ())
    (hsmall : ∀ d, dims d → (b.cap d).isSome ∨ Multiset.card held + 1 < 4294967296) :
    (b.tryAllocate id).2.Holds dims (id ::ₘ held) := by
  intro d hd
  rw [counter_tryAllocate hok d ?_, heldIn_cons, h d hd]
  intro hcov
  rcases hsmall d hd with hcap | hsmall
  · obtain ⟨c, hc⟩ := Option.isSome_iff_exists.mp hcap
    have hlt := UInt32.lt_iff_toNat_lt.mp ((tryAllocate_ok_iff b id).mp hok d hcov c hc)
    have hc := c.toNat_lt
    omega
  · have hle := heldIn_le_card d held
    rw [h d hd]
    omega

theorem Holds.release {b : BudgetTree} {dims : Dim → Prop} {held : Multiset JobId} {id : JobId}
    (h : b.Holds dims held) (hid : id ∈ held) : (b.release id).Holds dims (held.erase id) := by
  intro d hd
  rw [counter_release, heldIn_erase d hid, h d hd]

/-- A granted slot respects every cap. -/
theorem Within.allocate {b : BudgetTree} {dims : Dim → Prop} {held : Multiset JobId} {id : JobId}
    (hw : b.Within held) (h : b.Holds dims held) (hcap : ∀ d, (b.cap d).isSome → dims d)
    (hok : (b.tryAllocate id).1 = .ok ()) : (b.tryAllocate id).2.Within (id ::ₘ held) := by
  intro d c hc
  rw [cap_tryAllocate] at hc
  rw [heldIn_cons]
  split
  · next hcov =>
    have hlt := UInt32.lt_iff_toNat_lt.mp ((tryAllocate_ok_iff b id).mp hok d hcov c hc)
    rw [h d (hcap d (by simp [hc]))] at hlt
    omega
  · exact hw d c hc

theorem Within.mono {b b' : BudgetTree} {held held' : Multiset JobId} (hw : b.Within held)
    (hcap : b'.cap = b.cap) (hle : held' ≤ held) : b'.Within held' :=
  fun d c hc => (heldIn_mono d hle).trans (hw d c (hcap ▸ hc))

end BudgetTree

end Shigoto
