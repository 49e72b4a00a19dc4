import Shigoto.Scheduler.Tick
import Mathlib.Data.String.Basic

/-!
# The jobs a receipt lists as unhealed

`collect_unhealed` sorts the stuck jobs by the scheduler's own `stable_job_key`, stably, after the
iteration order of the phase map. This key leaves the scope of a job out, so the same work in two scopes
has one key, and a receipt that lists both depends on the hash map. It displays paths as the phase map spells
them, so where keys differ only by a path, a receipt may depend on the spelling.
-/

namespace Shigoto

open Sorting

variable {phases phases' : Map JobId JobPhase} {rank rank' : JobId → Nat} {spelling spelling' : Spelling}

/-- A phase that needs the operator's attention. -/
def JobPhase.isStuck (phase : JobPhase) : Bool :=
  phase = .deadlettered || phase = .waitingForOperator

/-- The job is stored in such a phase. -/
def Stuck (phases : Map JobId JobPhase) (id : JobId) : Prop :=
  ∃ phase, phases.get? id = some phase ∧ phase.isStuck = true

/-- What it takes for two receipts to differ only where the jobs do. -/
structure Canonical (phases : Map JobId JobPhase) : Prop where
  /-- Each stuck job has one entry, with its phase. -/
  exact : ∀ rank spelling drift, drift ∈ collectUnhealed rank spelling phases ↔
    ∃ id phase, phases.get? id = some phase ∧ (phase = .deadlettered ∨ phase = .waitingForOperator) ∧
      drift = ⟨id, phase, 0⟩
  once : ∀ rank spelling, ((collectUnhealed rank spelling phases).map (·.jobId)).Nodup
  /-- The hash map does not show, and neither does how it spells its keys. -/
  reproducible : ∀ rank rank' spelling spelling',
    collectUnhealed rank spelling phases = collectUnhealed rank' spelling' phases
  /-- The order of the entries is that of any other map with the same stuck jobs. -/
  ordered : ∀ phases' rank rank' spelling spelling', (∀ id, Stuck phases id ↔ Stuck phases' id) →
    (collectUnhealed rank spelling phases).map (·.jobId) =
      (collectUnhealed rank' spelling' phases').map (·.jobId)

/-- The keys of any two stuck jobs are in the same order however the two are spelled. -/
def UnhealedKeysApart (phases : Map JobId JobPhase) : Prop :=
  ∀ a b, Stuck phases a → Stuck phases b → a ≠ b → a.Apart unhealedKey b

/-! ## The entries -/

/-- The stuck jobs, in the order of the hash map. -/
def stuckIds (rank : JobId → Nat) (phases : Map JobId JobPhase) : List JobId :=
  ((phases.iterate rank).filter fun entry => entry.2.isStuck).map (·.1)

theorem mem_stuckIds {id : JobId} : id ∈ stuckIds rank phases ↔ Stuck phases id := by
  simp only [stuckIds, List.mem_map, List.mem_filter, Stuck]
  constructor
  · rintro ⟨⟨id', phase⟩, ⟨hmem, hstuck⟩, rfl⟩
    exact ⟨phase, (Map.mem_iterate rank phases id' phase).mp hmem, hstuck⟩
  · rintro ⟨phase, hget, hstuck⟩
    exact ⟨(id, phase), ⟨(Map.mem_iterate rank phases id phase).mpr hget, hstuck⟩, rfl⟩

theorem stuckIds_nodup : (stuckIds rank phases).Nodup :=
  (List.filter_sublist.map _).nodup (Map.iterate_keys_nodup rank phases)

/-- The entries before they are sorted. -/
def drifts (rank : JobId → Nat) (phases : Map JobId JobPhase) : List UnhealedDrift :=
  ((phases.iterate rank).filter fun entry => entry.2.isStuck).map fun entry => ⟨entry.1, entry.2, 0⟩

/-- What a stuck job is sorted by. -/
def stuckKey (spelling : Spelling) (id : JobId) : String := unhealedKey (spelling.of id)

theorem collectUnhealed_eq (rank : JobId → Nat) (spelling : Spelling) (phases : Map JobId JobPhase) :
    collectUnhealed rank spelling phases =
      sortBy (fun drift => stuckKey spelling drift.jobId) (drifts rank phases) :=
  rfl

theorem drifts_ids (rank : JobId → Nat) (phases : Map JobId JobPhase) :
    (drifts rank phases).map (·.jobId) = stuckIds rank phases := by
  rw [drifts, List.map_map]
  rfl

/-- The jobs of the entries are the stuck jobs, sorted by key. -/
theorem collectUnhealed_ids (rank : JobId → Nat) (spelling : Spelling) (phases : Map JobId JobPhase) :
    (collectUnhealed rank spelling phases).map (·.jobId) =
      sortBy (stuckKey spelling) (stuckIds rank phases) := by
  rw [collectUnhealed_eq, ← drifts_ids]
  exact List.map_insertionSort
    (fun a b : UnhealedDrift => stuckKey spelling a.jobId ≤ stuckKey spelling b.jobId)
    (fun a b => stuckKey spelling a ≤ stuckKey spelling b) (·.jobId) _ fun _ _ _ _ => Iff.rfl

/-- A receipt lists the jobs that are Deadlettered or wait for an operator. -/
theorem mem_collectUnhealed {drift : UnhealedDrift} : drift ∈ collectUnhealed rank spelling phases ↔
    ∃ id phase, phases.get? id = some phase ∧ (phase = .deadlettered ∨ phase = .waitingForOperator) ∧
      drift = ⟨id, phase, 0⟩ := by
  rw [collectUnhealed_eq, (sortBy_perm _).mem_iff]
  simp only [drifts, JobPhase.isStuck, List.mem_map, List.mem_filter, Bool.or_eq_true, decide_eq_true_iff]
  constructor
  · rintro ⟨⟨id, phase⟩, ⟨hmem, hphase⟩, rfl⟩
    exact ⟨id, phase, (Map.mem_iterate rank phases id phase).mp hmem, hphase, rfl⟩
  · rintro ⟨id, phase, hget, hphase, rfl⟩
    exact ⟨(id, phase), ⟨(Map.mem_iterate rank phases id phase).mpr hget, hphase⟩, rfl⟩

theorem collectUnhealed_nodup (rank : JobId → Nat) (spelling : Spelling) (phases : Map JobId JobPhase) :
    ((collectUnhealed rank spelling phases).map (·.jobId)).Nodup := by
  rw [collectUnhealed_ids]
  exact (sortBy_perm _).nodup_iff.mpr stuckIds_nodup

/-- Maps that store the same list the same jobs, in some order. -/
theorem collectUnhealed_perm (h : Map.get? phases = Map.get? phases') :
    (collectUnhealed rank spelling phases).Perm (collectUnhealed rank' spelling' phases') :=
  (sortBy_perm _).trans ((((Map.iterate_perm_of_get? h rank rank').filter _).map _).trans
    (sortBy_perm _).symm)

/-! ## The order of the entries -/

/-- Keys that are apart order the stuck jobs alike, however the jobs are spelled. -/
theorem UnhealedKeysApart.alike (h : UnhealedKeysApart phases) {a b : JobId} (ha : Stuck phases a)
    (hb : Stuck phases b) (hne : a ≠ b) :
    stuckKey spelling a < stuckKey spelling b ∧ stuckKey spelling' a < stuckKey spelling' b ∨
      stuckKey spelling b < stuckKey spelling a ∧ stuckKey spelling' b < stuckKey spelling' a := by
  rcases h a b ha hb hne with hlt | hlt
  · exact .inl ⟨hlt _ _ (spelling.key_of a) (spelling.key_of b),
      hlt _ _ (spelling'.key_of a) (spelling'.key_of b)⟩
  · exact .inr ⟨hlt _ _ (spelling.key_of b) (spelling.key_of a),
      hlt _ _ (spelling'.key_of b) (spelling'.key_of a)⟩

theorem stuckIds_perm (h : ∀ id, Stuck phases id ↔ Stuck phases' id) :
    (stuckIds rank phases).Perm (stuckIds rank' phases') :=
  (List.perm_ext_iff_of_nodup stuckIds_nodup stuckIds_nodup).mpr fun id => by
    rw [mem_stuckIds, mem_stuckIds, h]

/-- The hash map puts one stuck job before the other. -/
theorem pair_sublist_stuckIds {a b : JobId} (ha : Stuck phases a) (hb : Stuck phases b)
    (hrank : rank a < rank b) : [a, b].Sublist (stuckIds rank phases) := by
  obtain ⟨p, hp, hstuck⟩ := ha
  obtain ⟨q, hq, hstuck'⟩ := hb
  have hsub := ((Map.pair_sublist_iterate hp hq hrank).filter fun entry => entry.2.isStuck).map (·.1)
  simpa [stuckIds, hstuck, hstuck'] using hsub

theorem stuck_of_mem_drifts {drift : UnhealedDrift} (h : drift ∈ drifts rank phases) :
    Stuck phases drift.jobId := by
  have hid : drift.jobId ∈ (drifts rank phases).map (·.jobId) := List.mem_map_of_mem h
  rw [drifts_ids] at hid
  exact mem_stuckIds.mp hid

/-- Entries with one job are one entry. -/
theorem drifts_jobId_injective : KeysDistinct (fun drift => drift.jobId) (drifts rank phases) := by
  intro a ha b hb (hid : a.jobId = b.jobId)
  have hentry : ∀ {drift}, drift ∈ drifts rank phases → drift ∈ collectUnhealed rank .plain phases :=
    (sortBy_perm _).mem_iff.mpr
  obtain ⟨id, p, hp, -, rfl⟩ := mem_collectUnhealed.mp (hentry ha)
  obtain ⟨id', q, hq, -, rfl⟩ := mem_collectUnhealed.mp (hentry hb)
  obtain rfl : id = id' := hid
  obtain rfl : p = q := Option.some.inj (hp.symm.trans hq)
  rfl

/-- **Receipts diff cleanly exactly where the keys of the stuck jobs are apart.** -/
theorem collectUnhealed_canonical_iff (phases : Map JobId JobPhase) :
    Canonical phases ↔ UnhealedKeysApart phases := by
  constructor
  · intro h a b ha hb hne
    by_contra hnot
    rw [JobId.Apart, not_or] at hnot
    -- two spellings and two hash maps that differ in which of the two jobs comes first
    obtain ⟨spelling, hle⟩ := JobId.exists_of_not_precedes hne.symm hnot.2
    obtain ⟨spelling', hle'⟩ := JobId.exists_of_not_precedes hne hnot.1
    have hfirst : [a, b].Sublist (stuckIds (Map.ahead a) phases) :=
      pair_sublist_stuckIds ha hb (Map.ahead_lt hne)
    have hsecond : [b, a].Sublist (stuckIds (Map.ahead b) phases) :=
      pair_sublist_stuckIds hb ha (Map.ahead_lt (Ne.symm hne))
    have hkey : stuckKey spelling a ≤ stuckKey spelling b := hle
    have hkey' : stuckKey spelling' b ≤ stuckKey spelling' a := hle'
    refine sortBy_ne_of_swap stuckIds_nodup hfirst hsecond hne hkey hkey' ?_
    rw [← collectUnhealed_ids, ← collectUnhealed_ids, h.reproducible _ (Map.ahead b) _ spelling']
  · intro h
    exact {
      exact := fun rank spelling drift => mem_collectUnhealed
      once := fun rank spelling => collectUnhealed_nodup rank spelling phases
      reproducible := fun rank rank' spelling spelling' => by
        refine sortBy_congr (((Map.iterate_perm phases rank rank').filter _).map _) fun a ha b hb hne => ?_
        exact h.alike (stuck_of_mem_drifts ha) (stuck_of_mem_drifts hb) fun hid =>
          hne (drifts_jobId_injective a ha b hb hid)
      ordered := fun phases' rank rank' spelling spelling' hsame => by
        rw [collectUnhealed_ids, collectUnhealed_ids]
        exact sortBy_congr (stuckIds_perm hsame) fun a ha b hb =>
          h.alike (mem_stuckIds.mp ha) (mem_stuckIds.mp hb) }

/-! ## Samples -/

namespace Sample

/-- The same work in two scopes, given up on in both. -/
def bothStuck : Map JobId JobPhase :=
  (Map.insert ∅ ⟨.workspace "x", ⟨"build"⟩, .repo "r"⟩ .deadlettered).insert
    ⟨.workspace "y", ⟨"build"⟩, .repo "r"⟩ .deadlettered

/-- Work on two files, given up on in both. -/
def filesStuck : Map JobId JobPhase :=
  (Map.insert ∅ (file "z/a").key .deadlettered).insert (file "z/0").key .deadlettered

end Sample

/-- Two receipts for one phase map that list its jobs in different orders, by the hash map; and two that do by
how the map spells them. -/
theorem unhealed_order_by_hash :
    let x : JobId := ⟨.workspace "x", ⟨"build"⟩, .repo "r"⟩
    let y : JobId := ⟨.workspace "y", ⟨"build"⟩, .repo "r"⟩
    let a : JobId := (Sample.file "z/a").key
    let b : JobId := (Sample.file "z/0").key
    x ≠ y ∧ unhealedKey x.plain = unhealedKey y.plain ∧
    collectUnhealed (Map.ahead x) .plain Sample.bothStuck = [⟨x, .deadlettered, 0⟩, ⟨y, .deadlettered, 0⟩] ∧
    collectUnhealed (Map.ahead y) .plain Sample.bothStuck = [⟨y, .deadlettered, 0⟩, ⟨x, .deadlettered, 0⟩] ∧
    collectUnhealed (Map.ahead a) (Spelling.plain.update (Sample.file "z//a")) Sample.filesStuck =
      [⟨a, .deadlettered, 0⟩, ⟨b, .deadlettered, 0⟩] ∧
    collectUnhealed (Map.ahead a) .plain Sample.filesStuck =
      [⟨b, .deadlettered, 0⟩, ⟨a, .deadlettered, 0⟩] := by
  refine ⟨by decide, by decide, by decide +kernel, by decide +kernel, by decide +kernel, by decide +kernel⟩

end Shigoto
