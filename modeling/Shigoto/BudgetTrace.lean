import Mathlib.Algebra.BigOperators.Group.Finset.Basic
import Shigoto.Budget

/-!
# The budget over sequences of calls

`BudgetTree.run` follows a tree and the slots held along a sequence of requests and releases. As long as
only held slots are released (`Balanced`), the counters count the held slots in every dimension, and the
answer to a request can be read off the held slots (`CountsExactly`).
-/

namespace Shigoto

namespace BudgetTree

/-! ## Runs -/

/-- A call on a budget tree. -/
inductive Request
  | tryAllocate (id : JobId)
  | release (id : JobId)

/-- A tree together with the slots held: the granted requests that are not yet released. -/
structure Traced where
  budget : BudgetTree
  held : Multiset JobId

def Traced.step (x : Traced) : Request → Traced
  | .tryAllocate id =>
    match x.budget.tryAllocate id with
    | (.ok (), budget) => ⟨budget, id ::ₘ x.held⟩
    | (.error _, budget) => ⟨budget, x.held⟩
  | .release id => ⟨x.budget.release id, x.held.erase id⟩

/-- Issue requests one after the other, starting with no slot held. -/
def run (b : BudgetTree) (requests : List Request) : Traced := requests.foldl Traced.step ⟨b, 0⟩

theorem run_concat (b : BudgetTree) (requests : List Request) (r : Request) :
    b.run (requests ++ [r]) = (b.run requests).step r := by
  simp [run]

/-- Each release gives back a held slot, and fewer than 2^32 slots are held at any time. -/
structure Balanced (b : BudgetTree) (requests : List Request) : Prop where
  releases : ∀ before id, before ++ [.release id] <+: requests → id ∈ (b.run before).held
  few : ∀ before, before <+: requests → Multiset.card (b.run before).held < 4294967296

theorem Balanced.of_prefix {b : BudgetTree} {before requests : List Request} (h : b.Balanced requests)
    (hearlier : before <+: requests) : b.Balanced before :=
  ⟨fun earlier id he => h.releases earlier id (he.trans hearlier),
    fun earlier he => h.few earlier (he.trans hearlier)⟩

theorem step_tryAllocate_ok {x : Traced} {id : JobId} (h : (x.budget.tryAllocate id).1 = .ok ()) :
    x.step (.tryAllocate id) = ⟨(x.budget.tryAllocate id).2, id ::ₘ x.held⟩ := by
  have hpair : x.budget.tryAllocate id = (.ok (), (x.budget.tryAllocate id).2) := Prod.ext h rfl
  rw [Traced.step, hpair]

theorem step_tryAllocate_error {x : Traced} {id : JobId} {e : BudgetError}
    (h : (x.budget.tryAllocate id).1 = .error e) : x.step (.tryAllocate id) = x := by
  have hpair : x.budget.tryAllocate id = (.error e, x.budget) := Prod.ext h (tryAllocate_error h)
  rw [Traced.step, hpair]

/-! ## The books -/

/-- The caps are those of `b`, every counter counts the held slots, and no cap is exceeded. -/
structure Traced.Books (b : BudgetTree) (x : Traced) : Prop where
  cap : x.budget.cap = b.cap
  holds : x.budget.Holds (fun _ => True) x.held
  within : x.budget.Within x.held

theorem Traced.Books.step {b : BudgetTree} {x : Traced} (h : x.Books b) {r : Request}
    (hreleases : ∀ id, r = .release id → id ∈ x.held)
    (hfew : Multiset.card (x.step r).held < 4294967296) : (x.step r).Books b := by
  cases r with
  | tryAllocate id =>
    cases hanswer : (x.budget.tryAllocate id).1 with
    | error e => rwa [step_tryAllocate_error hanswer]
    | ok u =>
      rw [step_tryAllocate_ok hanswer] at hfew ⊢
      rw [Multiset.card_cons] at hfew
      exact ⟨(cap_tryAllocate x.budget id).trans h.cap,
        h.holds.allocate hanswer fun _ _ => .inr hfew,
        h.within.allocate h.holds (fun _ _ => True.intro) hanswer⟩
  | release id =>
    have hid := hreleases id rfl
    exact ⟨h.cap, h.holds.release hid, h.within.mono rfl (Multiset.erase_le id x.held)⟩

theorem Balanced.books {b : BudgetTree} (hidle : b.Idle) {requests : List Request}
    (h : b.Balanced requests) : (b.run requests).Books b := by
  induction requests using List.reverseRecOn with
  | nil =>
    refine ⟨rfl, fun d _ => ?_, fun d c _ => ?_⟩
    · rw [run, List.foldl_nil, hidle d]
      rfl
    · exact Nat.zero_le _
  | append_singleton requests r ih =>
    -- the last request finds the books of those before it
    rw [run_concat]
    refine (ih (h.of_prefix (List.prefix_append _ _))).step (fun id hr => ?_) ?_
    · exact h.releases requests id (hr ▸ List.prefix_rfl)
    · rw [← run_concat]
      exact h.few _ List.prefix_rfl

/-! ## What can be read off the held slots -/

/-- The held slots fill the cap of a dimension. -/
def Full (b : BudgetTree) (held : Multiset JobId) (d : Dim) : Prop :=
  ∃ c, b.cap d = some c ∧ c.toNat ≤ heldIn d held

/-- The answer to a request is the first dimension that is full. -/
def Answers (b : BudgetTree) (held : Multiset JobId) (id : JobId) : Except BudgetError Unit → Prop
  | .ok () => ¬ b.Full held .global ∧ ¬ b.Full held (.kind id.kind) ∧ ¬ b.Full held (.scope id.scope)
  | .error .globalExhausted => b.Full held .global
  | .error (.kindExhausted kind) =>
    ¬ b.Full held .global ∧ b.Full held (.kind id.kind) ∧ kind = id.kind.name
  | .error .scopeExhausted =>
    ¬ b.Full held .global ∧ ¬ b.Full held (.kind id.kind) ∧ b.Full held (.scope id.scope)

/-- A check of the code is a check of the held slots. -/
theorem exhausted_iff_full {b : BudgetTree} {held : Multiset JobId} {d : Dim} {spec : Option BudgetSpec}
    {running : UInt32} (hcap : b.cap d = spec.map (·.maxConcurrent))
    (hrunning : running.toNat = heldIn d held) : exhausted spec running = true ↔ b.Full held d := by
  rw [Full, hcap, ← hrunning]
  cases spec with
  | none => simp [exhausted]
  | some s => simp [exhausted, UInt32.le_iff_toNat_le]

theorem Holds.answers {b : BudgetTree} {held : Multiset JobId} (h : b.Holds (fun _ => True) held)
    (id : JobId) : b.Answers held id (b.tryAllocate id).1 := by
  have hglobal : exhausted b.global b.runningGlobal = true ↔ b.Full held .global :=
    exhausted_iff_full rfl (h .global True.intro)
  have hkind : exhausted (b.byKind.get? id.kind) (b.runningKind id.kind) = true ↔
      b.Full held (.kind id.kind) := exhausted_iff_full rfl (h (.kind id.kind) True.intro)
  have hscope : exhausted (b.byScope.get? id.scope) (b.runningScope id.scope) = true ↔
      b.Full held (.scope id.scope) := exhausted_iff_full rfl (h (.scope id.scope) True.intro)
  unfold tryAllocate
  split
  · next hg => exact hglobal.mp hg
  · next hg =>
    have hnotGlobal := mt hglobal.mpr hg
    split
    · next hk => exact ⟨hnotGlobal, hkind.mp hk, rfl⟩
    · next hk =>
      have hnotKind := mt hkind.mpr hk
      split
      · next hs => exact ⟨hnotGlobal, hnotKind, hscope.mp hs⟩
      · next hs => exact ⟨hnotGlobal, hnotKind, mt hscope.mpr hs⟩

/-- A slot that is taken and given back leaves every count as it was. -/
theorem Holds.undone {b : BudgetTree} {held : Multiset JobId} (h : b.Holds (fun _ => True) held)
    (hfew : Multiset.card held + 1 < 4294967296) {id : JobId} (hok : (b.tryAllocate id).1 = .ok ())
    (d : Dim) : ((b.tryAllocate id).2.release id).counter d = b.counter d := by
  have hsmall : (b.counter d).toNat + 1 < 4294967296 := by
    have hle := heldIn_le_card d held
    rw [h d True.intro]
    omega
  apply UInt32.toNat_inj.mp
  rw [counter_release, counter_tryAllocate hok d fun _ => hsmall]
  omega

/-- Slots sorted by a property are as many as the slots. -/
theorem sum_countP_eq_card {α β : Type} [DecidableEq β] {f : α → β} {m : Multiset α} {s : Finset β}
    (h : ∀ a ∈ m, f a ∈ s) : ∑ b ∈ s, m.countP (fun a => f a = b) = Multiset.card m := by
  have hcount : ∀ b, m.countP (fun a => f a = b) = (m.map f).count b := by
    intro b
    rw [Multiset.count_map, Multiset.countP_eq_card_filter]
    simp only [eq_comm]
  simp only [hcount]
  rw [Multiset.sum_count_eq_card (by simpa using h), Multiset.card_map]

/-- What a tree with the caps of `b` shows, when it counts the held slots exactly. -/
structure CountsExactly (b : BudgetTree) (x : Traced) : Prop where
  global : x.budget.runningGlobal.toNat = Multiset.card x.held
  kind : ∀ k, (x.budget.runningKind k).toNat = x.held.countP fun id => id.kind = k
  scope : ∀ s, (x.budget.runningScope s).toNat = x.held.countP fun id => id.scope = s
  kinds : ∀ ks : Finset JobKindId, (∀ id ∈ x.held, id.kind ∈ ks) →
    ∑ k ∈ ks, (x.budget.runningKind k).toNat = x.budget.runningGlobal.toNat
  scopes : ∀ ss : Finset JobScope, (∀ id ∈ x.held, id.scope ∈ ss) →
    ∑ s ∈ ss, (x.budget.runningScope s).toNat = x.budget.runningGlobal.toNat
  caps : ∀ d c, b.cap d = some c → heldIn d x.held ≤ c.toNat
  answers : ∀ id, b.Answers x.held id (x.budget.tryAllocate id).1
  refused : ∀ id e, (x.budget.tryAllocate id).1 = .error e → (x.budget.tryAllocate id).2 = x.budget
  undone : ∀ id, (x.budget.tryAllocate id).1 = .ok () → Multiset.card x.held + 1 < 4294967296 →
    ∀ d, ((x.budget.tryAllocate id).2.release id).counter d = x.budget.counter d

theorem Full.congr {b b' : BudgetTree} (h : b'.cap = b.cap) (held : Multiset JobId) :
    b'.Full held = b.Full held := by
  funext d
  rw [Full, Full, h]

theorem Answers.congr {b b' : BudgetTree} (h : b'.cap = b.cap) (held : Multiset JobId) (id : JobId) :
    b'.Answers held id = b.Answers held id := by
  funext answer
  unfold Answers
  rw [Full.congr h]

theorem Traced.Books.countsExactly {b : BudgetTree} {x : Traced} (h : x.Books b) :
    b.CountsExactly x := by
  have hglobal : x.budget.runningGlobal.toNat = Multiset.card x.held :=
    (h.holds .global True.intro).trans (Multiset.countP_eq_card.mpr fun _ _ => rfl)
  have hkind : ∀ k, (x.budget.runningKind k).toNat = x.held.countP fun id => id.kind = k := by
    intro k
    rw [show (x.budget.runningKind k).toNat = heldIn (.kind k) x.held from
      h.holds (.kind k) True.intro]
    simp [heldIn, Dim.covers]
  have hscope : ∀ s, (x.budget.runningScope s).toNat = x.held.countP fun id => id.scope = s := by
    intro s
    rw [show (x.budget.runningScope s).toNat = heldIn (.scope s) x.held from
      h.holds (.scope s) True.intro]
    simp [heldIn, Dim.covers]
  exact {
    global := hglobal
    kind := hkind
    scope := hscope
    kinds := fun ks hks => by
      rw [Finset.sum_congr rfl fun k _ => hkind k, sum_countP_eq_card hks, hglobal]
    scopes := fun ss hss => by
      rw [Finset.sum_congr rfl fun s _ => hscope s, sum_countP_eq_card hss, hglobal]
    caps := fun d c hc => h.within d c (h.cap ▸ hc)
    answers := fun id => Answers.congr h.cap x.held id ▸ h.holds.answers id
    refused := fun id e he => tryAllocate_error he
    undone := fun id hok hfew d => h.holds.undone hfew hok d }

/-! ## The result -/

/-- **A budget tree counts exactly what is held**, after every call of every balanced sequence. -/
theorem counts_exactly {b : BudgetTree} (hidle : b.Idle) {requests : List Request}
    (hbalanced : b.Balanced requests) :
    ∀ before, before <+: requests → b.CountsExactly (b.run before) :=
  fun _ hearlier => ((hbalanced.of_prefix hearlier).books hidle).countsExactly

/-- One slot that is taken, refused to a second job, and given back. -/
theorem counts_exactly_oneSlot :
    let a : JobId := ⟨.global, ⟨"build"⟩, .pinned "a"⟩
    let requests := [Request.tryAllocate a, .tryAllocate ⟨.global, ⟨"build"⟩, .pinned "b"⟩, .release a]
    let b : BudgetTree := { BudgetTree.new with global := some ⟨1⟩ }
    ∀ before, before <+: requests → b.CountsExactly (b.run before) := by
  intro a requests b
  have hheld : a ∈ (b.run [.tryAllocate a, .tryAllocate ⟨.global, ⟨"build"⟩, .pinned "b"⟩]).held := by
    decide +kernel
  have hfew : ∀ before ∈ requests.inits, Multiset.card (b.run before).held < 4294967296 := by
    decide +kernel
  refine counts_exactly (fun d => by cases d <;> rfl)
    ⟨fun before id hearlier => ?_, fun before hearlier => ?_⟩
  · have hmem := (List.mem_inits _ _).mpr hearlier
    simp only [requests, List.inits, List.map_cons, List.map_nil, List.mem_cons, List.not_mem_nil,
      or_false] at hmem
    rcases hmem with h | h | h | h
    · simp at h
    · exact nomatch (List.append_inj' h rfl : before = [] ∧ _).2
    · exact nomatch (List.append_inj' h rfl : before = [_] ∧ _).2
    · obtain ⟨rfl, hid⟩ := (List.append_inj' h rfl : before = [_, _] ∧ _)
      simp only [List.cons.injEq, Request.release.injEq, and_true] at hid
      rw [hid]
      exact hheld
  · exact hfew before ((List.mem_inits _ _).mpr hearlier)

end BudgetTree

end Shigoto
