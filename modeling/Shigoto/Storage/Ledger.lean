import Mathlib.Data.Set.Insert

/-!
# Work that is on record

A worker finishes items of work and forgets everything when it stops, but for what it put on record: it
starts again from there. A `Ledger` keeps apart what the worker knows to be finished and what is on record,
and says which histories keep the promise that nothing known to be finished is worked on again.

In such a history a record is never lost and never redone (`Keeps.after_recorded`), what was finished under
the worker that writes a record is in it (`Keeps.complete`), and nothing else is (`Keeps.origin`).
-/

namespace Storage

variable {ι : Type}

/-- What is seen of a worker. -/
inductive Happening (ι : Type)
  /-- A worker starts from a record. -/
  | started (items : Set ι)
  /-- An item was worked on without success. -/
  | tried (i : ι)
  | finished (i : ι)
  | recorded (items : Set ι)

/-- The happening works on an item. -/
def Happening.worksOn (i : ι) : Happening ι → Prop
  | .tried j | .finished j => j = i
  | _ => False

/-- The items that the happening reads from the record or puts on it. -/
def Happening.record : Happening ι → Option (Set ι)
  | .started items | .recorded items => some items
  | _ => none

def Happening.isStarted : Happening ι → Bool
  | .started _ => true
  | _ => false

/-- What the worker knows to be finished, and what is on record. -/
structure Ledger (ι : Type) where
  known : Set ι
  recorded : Set ι
  recorded_subset : recorded ⊆ known

namespace Ledger

/-- Nothing that is known is worked on, and the record is read and written as it is. -/
def Allows (L : Ledger ι) : Happening ι → Prop
  | .started items => items = L.recorded
  | .tried i | .finished i => i ∉ L.known
  | .recorded items => items = L.known

def next (L : Ledger ι) : Happening ι → Ledger ι
  | .started _ => ⟨L.recorded, L.recorded, Set.Subset.rfl⟩
  | .tried _ => L
  | .finished i => ⟨insert i L.known, L.recorded, L.recorded_subset.trans (Set.subset_insert i L.known)⟩
  | .recorded _ => ⟨L.known, L.known, Set.Subset.rfl⟩

/-- The ledger after a history, oldest happening first. -/
def after (L : Ledger ι) (history : List (Happening ι)) : Ledger ι := history.foldl next L

/-- The history keeps the promise, from the ledger `L` on. -/
def Keeps (L : Ledger ι) : List (Happening ι) → Prop
  | [] => True
  | x :: history => L.Allows x ∧ (L.next x).Keeps history

variable {L : Ledger ι} {x : Happening ι} {history history' : List (Happening ι)} {i : ι} {items : Set ι}

@[simp] theorem after_nil (L : Ledger ι) : L.after [] = L := rfl

@[simp] theorem after_cons (L : Ledger ι) (x : Happening ι) (history : List (Happening ι)) :
    L.after (x :: history) = (L.next x).after history := rfl

theorem after_append (L : Ledger ι) (history history' : List (Happening ι)) :
    L.after (history ++ history') = (L.after history).after history' := List.foldl_append

theorem keeps_append : L.Keeps (history ++ history') ↔
    L.Keeps history ∧ (L.after history).Keeps history' := by
  induction history generalizing L with
  | nil => exact (and_iff_right True.intro).symm
  | cons x history ih => exact (and_congr_right fun _ => ih).trans and_assoc.symm

theorem Keeps.of_append (h : L.Keeps (history ++ history')) : L.Keeps history := (keeps_append.mp h).1

/-! ## What stays -/

/-- Nothing is taken off the record. -/
theorem recorded_subset_next (L : Ledger ι) (x : Happening ι) : L.recorded ⊆ (L.next x).recorded := by
  cases x with
  | recorded items => exact L.recorded_subset
  | _ => exact Set.Subset.rfl

theorem recorded_subset_after (L : Ledger ι) (history : List (Happening ι)) :
    L.recorded ⊆ (L.after history).recorded := by
  induction history generalizing L with
  | nil => exact Set.Subset.rfl
  | cons x history ih => exact (L.recorded_subset_next x).trans (ih (L.next x))

/-- As long as no other worker starts, nothing that is known is forgotten. -/
theorem known_subset_after (L : Ledger ι) (h : ∀ x ∈ history, x.isStarted = false) :
    L.known ⊆ (L.after history).known := by
  induction history generalizing L with
  | nil => exact Set.Subset.rfl
  | cons x history ih =>
    refine Set.Subset.trans ?_ (ih (L.next x) fun y hy => h y (List.mem_cons_of_mem x hy))
    cases x with
    | started items => cases h _ List.mem_cons_self
    | finished i => exact Set.subset_insert i L.known
    | _ => exact Set.Subset.rfl

/-- **What is on record is not worked on again**, and every record that follows has it. -/
theorem Keeps.after_recorded (h : L.Keeps history) (hi : i ∈ L.recorded) (hx : x ∈ history) :
    ¬ x.worksOn i ∧ ∀ items, x.record = some items → i ∈ items := by
  obtain ⟨before, rest, rfl⟩ := List.append_of_mem hx
  have hallows := (keeps_append.mp h).2.1
  have hi' : i ∈ (L.after before).recorded := L.recorded_subset_after before hi
  generalize L.after before = L' at hallows hi'
  cases x with
  | started items =>
    refine ⟨id, fun items' hitems' => ?_⟩
    obtain rfl := Option.some.inj hitems'
    exact Eq.symm hallows ▸ hi'
  | recorded items =>
    refine ⟨id, fun items' hitems' => ?_⟩
    obtain rfl := Option.some.inj hitems'
    exact Eq.symm hallows ▸ L'.recorded_subset hi'
  | tried j =>
    refine ⟨?_, fun items hitems => by cases hitems⟩
    rintro rfl
    exact hallows (L'.recorded_subset hi')
  | finished j =>
    refine ⟨?_, fun items hitems => by cases hitems⟩
    rintro rfl
    exact hallows (L'.recorded_subset hi')

/-- What is read from the record or put on it is not worked on again, and every record that follows has it. -/
theorem Keeps.after_record (h : L.Keeps (history ++ x :: history')) (hitems : x.record = some items)
    (hi : i ∈ items) : ∀ y ∈ history', ¬ y.worksOn i ∧ ∀ items', y.record = some items' → i ∈ items' := by
  obtain ⟨hallows, hrest⟩ := (keeps_append.mp h).2
  intro y hy
  refine hrest.after_recorded ?_ hy
  cases x with
  | started items' =>
    obtain rfl := Option.some.inj hitems
    exact hallows ▸ hi
  | recorded items' =>
    obtain rfl := Option.some.inj hitems
    exact hallows ▸ hi
  | _ => cases hitems

/-- **A record is complete**: it has what was finished before it under the same worker. -/
theorem Keeps.complete {between : List (Happening ι)}
    (h : L.Keeps (history ++ .finished i :: (between ++ .recorded items :: history')))
    (hbetween : ∀ x ∈ between, x.isStarted = false) : i ∈ items := by
  have hrest := (keeps_append.mp h).2.2
  obtain rfl := (keeps_append.mp hrest).2.1
  exact known_subset_after _ hbetween (Set.mem_insert i (L.after history).known)

/-- Whatever is known was on record at the start, or was finished since. -/
theorem origin_of_known (L : Ledger ι) (hL : L.known = L.recorded) (history : List (Happening ι))
    (h : i ∈ (L.after history).known) : i ∈ L.recorded ∨ .finished i ∈ history := by
  suffices hboth : i ∈ (L.after history).known ∪ (L.after history).recorded →
      i ∈ L.known ∪ L.recorded ∨ .finished i ∈ history by
    exact (hboth (.inl h)).imp_left fun h => by simpa [hL] using h
  clear h hL
  induction history generalizing L with
  | nil => exact .inl
  | cons x history ih =>
    intro h
    refine (ih (L.next x) h).elim (fun hnext => ?_) fun hmem => .inr (List.mem_cons_of_mem x hmem)
    cases x with
    | started items => exact .inl (.inr (hnext.elim id id))
    | tried j => exact .inl hnext
    | finished j =>
      rcases hnext with (rfl | hknown) | hrecorded
      · exact .inr List.mem_cons_self
      · exact .inl (.inl hknown)
      · exact .inl (.inr hrecorded)
    | recorded items => exact .inl (.inl (hnext.elim id id))

/-- **A record makes nothing up.** -/
theorem Keeps.origin (hL : L.known = L.recorded) (h : L.Keeps (history ++ .recorded items :: history'))
    (hi : i ∈ items) : i ∈ L.recorded ∨ .finished i ∈ history := by
  obtain rfl := (keeps_append.mp h).2.1
  exact L.origin_of_known hL history hi

end Ledger

end Storage
