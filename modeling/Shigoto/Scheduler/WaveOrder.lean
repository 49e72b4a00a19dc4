import Shigoto.DagCalls
import Shigoto.Scheduler.Tick
import Mathlib.Data.String.Basic

/-!
# Wave order

Within a wave the jobs are sorted by `stable_job_key`, stably, after the iteration order of a hash map.
The key is free-form text joined by separators, so two jobs may share it, and a path is displayed as it was
spelled when the job was interned, so equal calls in another order may give another key. Where two jobs of one
wave are not told apart by their keys however they are spelled, their order is that of the hash map or of the
calls, and with one slot left it decides which of them runs; where all are, `waves` is a function of the graph
alone.
-/

namespace Shigoto

open Layering Relation Sorting

namespace Dag

/-- The dependencies between affected jobs that the calls add. -/
def DependsAmong (calls : List DagCall) (affected : Option (Finset JobId)) (u v : JobId) : Prop :=
  Wanted affected u ∧ Wanted affected v ∧ AddsEdge calls u v

/-- The keys of two affected jobs of the same wave are in the same order however the two are spelled. The wave
of a job is the length of the longest path that leads to it. -/
def WaveKeysApart (calls : List DagCall) (affected : Option (Finset JobId)) : Prop :=
  ∀ a b k, Mentions calls a → Mentions calls b → Wanted affected a → Wanted affected b →
    Longest (DependsAmong calls affected) a k → Longest (DependsAmong calls affected) b k →
    a ≠ b → a.Apart stableJobKey b

variable {calls calls' : List DagCall} {affected : Option (Finset JobId)} {sort sort' : Toposort}
  {rank rank' : JobId → Nat} {waveOf waveOf' : Map JobId Nat} {key key' : JobId → String}

/-! ## Grouping -/

/-- The jobs at one depth, in the order of the hash map. -/
def jobsAt (rank : JobId → Nat) (waveOf : Map JobId Nat) (k : Nat) : List JobId :=
  ((waveOf.iterate rank).filter fun e => e.2 = k).map (·.1)

theorem mem_jobsAt {k : Nat} {id : JobId} : id ∈ jobsAt rank waveOf k ↔ waveOf.get? id = some k := by
  rw [jobsAt, List.mem_map]
  constructor
  · rintro ⟨⟨id', d⟩, hin, rfl⟩
    obtain ⟨hit, hd⟩ := List.mem_filter.mp hin
    obtain rfl : d = k := by simpa using hd
    exact (Map.mem_iterate rank waveOf id' d).mp hit
  · intro hget
    exact ⟨(id, k), List.mem_filter.mpr ⟨(Map.mem_iterate rank waveOf id k).mpr hget, by simp⟩, rfl⟩

theorem jobsAt_nodup (k : Nat) : (jobsAt rank waveOf k).Nodup :=
  (List.filter_sublist.map _).nodup (Map.iterate_keys_nodup rank waveOf)

/-- **Keys that order the jobs of each depth alike**: neither the keys nor the hash map show. -/
theorem groupWaves_congr (hget : Map.get? waveOf = Map.get? waveOf')
    (hkeys : ∀ k, ∀ a ∈ jobsAt rank waveOf k, ∀ b ∈ jobsAt rank waveOf k, a ≠ b →
      key a < key b ∧ key' a < key' b ∨ key b < key a ∧ key' b < key' a) :
    groupWaves key rank waveOf = groupWaves key' rank' waveOf' := by
  have hperm := Map.iterate_perm_of_get? hget rank rank'
  have hmax : ((waveOf.iterate rank).map (·.2)).foldl max 0 =
      ((waveOf'.iterate rank').map (·.2)).foldl max 0 := (hperm.map _).foldl_op_eq
  have hwave : ∀ k, sortByKey key (jobsAt rank waveOf k) = sortByKey key' (jobsAt rank' waveOf' k) :=
    fun k => sortBy_congr ((hperm.filter _).map _) (hkeys k)
  simp only [groupWaves, hmax]
  exact List.map_congr_left fun k _ => hwave k

/-- The wave of a depth that occurs. -/
theorem getElem?_groupWaves {id : JobId} {k : Nat} (h : waveOf.get? id = some k) :
    (groupWaves key rank waveOf)[k]? = some (sortByKey key (jobsAt rank waveOf k)) := by
  obtain ⟨wave, hwave⟩ := exists_groupWaves rank h
  obtain ⟨hlt, -⟩ := List.getElem?_eq_some_iff.mp hwave
  rw [List.getElem?_eq_getElem hlt]
  simp only [groupWaves, List.getElem_map, List.getElem_range, jobsAt]

theorem pair_sublist_jobsAt {a b : JobId} {k : Nat} (ha : waveOf.get? a = some k)
    (hb : waveOf.get? b = some k) (hrank : rank a < rank b) :
    [a, b].Sublist (jobsAt rank waveOf k) := by
  have hsub := ((Map.pair_sublist_iterate ha hb hrank).filter fun e => e.2 = k).map (·.1)
  simpa [jobsAt] using hsub

/-- **Keys that do not order two jobs of one depth alike**: with the hash map the other way round, it shows. -/
theorem groupWaves_ne_of_swap {a b : JobId} {k : Nat} (hget : Map.get? waveOf = Map.get? waveOf')
    (ha : waveOf.get? a = some k) (hb : waveOf.get? b = some k) (hne : a ≠ b) (hkey : key a ≤ key b)
    (hkey' : key' b ≤ key' a) (hrank : rank a < rank b) (hrank' : rank' b < rank' a) :
    groupWaves key rank waveOf ≠ groupWaves key' rank' waveOf' := by
  have ha' : waveOf'.get? a = some k := by rw [← hget, ha]
  have hb' : waveOf'.get? b = some k := by rw [← hget, hb]
  intro heq
  have hwave := (getElem?_groupWaves ha).symm.trans
    ((congrArg (fun ws => ws[k]?) heq).trans (getElem?_groupWaves ha'))
  exact sortBy_ne_of_swap (jobsAt_nodup k) (pair_sublist_jobsAt ha hb hrank)
    (pair_sublist_jobsAt hb' ha' hrank') hne hkey hkey' (Option.some.inj hwave)

/-! ## The depths are those of the graph -/

theorem longest_unique {α : Type} {r : α → α → Prop} {a : α} {n m : Nat} (hn : Longest r a n)
    (hm : Longest r a m) : n = m := by
  obtain ⟨⟨b, hpath⟩, hle⟩ := hn
  obtain ⟨⟨b', hpath'⟩, hle'⟩ := hm
  exact Nat.le_antisymm (hle' b n hpath) (hle b' m hpath')

/-- What `waves` answers on an acyclic graph: the depth of a job is that of its longest path. -/
theorem waves_ofCalls (rank : JobId → Nat) (hsort : sort.Sorts (ofCalls calls).graph)
    (hacyclic : ¬ (ofCalls calls).Cyclic) (affected : Option (Finset JobId)) :
    ∃ waveOf, (ofCalls calls).waves sort rank affected =
        .ok (groupWaves (ofCalls calls).waveKey rank waveOf) ∧
      ∀ id k, waveOf.get? id = some k ↔
        Mentions calls id ∧ Wanted affected id ∧ Longest (DependsAmong calls affected) id k := by
  have hwf := (built_ofCalls calls).wellFormed
  have hedges : (ofCalls calls).EdgeAmong (Wanted affected) = DependsAmong calls affected := by
    funext u v
    rw [EdgeAmong, DependsAmong, edge_ofCalls]
  cases hok : (ofCalls calls).waves sort rank affected with
  | error e =>
    refine absurd ⟨e, hok⟩ (mt waves_error_iff.mp (not_not.mpr ?_))
    exact hsort.ok_iff.mpr (hwf.acyclic_iff.mpr hacyclic)
  | ok ws =>
    obtain ⟨waveOf, rfl, htight, hmem⟩ := waves_ok hwf hsort hok
    rw [hedges] at htight
    refine ⟨waveOf, rfl, fun id k => ?_⟩
    have hsome := hmem id
    rw [hasNode_ofCalls] at hsome
    have hlongest := htight.longest id
    constructor
    · intro hget
      rw [depthIn, hget] at hlongest
      obtain ⟨hmention, hwanted⟩ := hsome.mp (Option.isSome_of_eq_some hget)
      exact ⟨hmention, hwanted, hlongest⟩
    · rintro ⟨hmention, hwanted, hk⟩
      obtain ⟨d, hd⟩ := Option.isSome_iff_exists.mp (hsome.mpr ⟨hmention, hwanted⟩)
      rw [depthIn, hd] at hlongest
      rw [hd, longest_unique hk hlongest]
      rfl

/-- Calls for the same graph give every job the same depth. -/
theorem waves_ofCalls_congr (rank' : JobId → Nat) (hgraph : SameGraph calls calls')
    (hsort' : sort'.Sorts (ofCalls calls').graph) (hacyclic : ¬ (ofCalls calls).Cyclic)
    (hget : ∀ id k, waveOf.get? id = some k ↔
      Mentions calls id ∧ Wanted affected id ∧ Longest (DependsAmong calls affected) id k) :
    ∃ waveOf', (ofCalls calls').waves sort' rank' affected =
        .ok (groupWaves (ofCalls calls').waveKey rank' waveOf') ∧ Map.get? waveOf = Map.get? waveOf' := by
  obtain ⟨waveOf', hok', hget'⟩ := waves_ofCalls rank' hsort'
    (mt (cyclic_ofCalls_congr hgraph).mpr hacyclic) affected
  have hdepends : DependsAmong calls affected = DependsAmong calls' affected := by
    funext u v
    rw [DependsAmong, DependsAmong, hgraph.edges]
  refine ⟨waveOf', hok', ?_⟩
  funext id
  refine Option.ext fun k => (hget id k).trans ?_
  rw [hget', hgraph.jobs, hdepends]

/-! ## The result -/

/-- **Wave order is reproducible exactly where the keys of each wave are apart.** For an acyclic
graph and any affected part: every sequence of calls for this graph, every sort of it and every iteration
order of the hash map give the same waves, if and only if the keys of any two jobs of one wave are in the same
order however the jobs are spelled. -/
theorem waves_reproducible_iff (hsort : sort.Sorts (ofCalls calls).graph)
    (hacyclic : ¬ (ofCalls calls).Cyclic) (affected : Option (Finset JobId)) :
    (∀ calls' sort' rank rank', SameGraph calls calls' → sort'.Sorts (ofCalls calls').graph →
      (ofCalls calls).waves sort rank affected = (ofCalls calls').waves sort' rank' affected) ↔
    WaveKeysApart calls affected := by
  obtain ⟨waveOf, -, hget⟩ := waves_ofCalls (fun _ => 0) hsort hacyclic affected
  constructor
  · intro h a b k ha hb hwa hwb hka hkb hne
    have hdepth := (hget a k).mpr ⟨ha, hwa, hka⟩
    have hdepth' := (hget b k).mpr ⟨hb, hwb, hkb⟩
    by_contra hnot
    rw [JobId.Apart, not_or] at hnot
    -- two spellings and two hash maps that differ in which of the two jobs comes first
    obtain ⟨spelling, hle⟩ := JobId.exists_of_not_precedes hne.symm hnot.2
    obtain ⟨spelling', hle'⟩ := JobId.exists_of_not_precedes hne hnot.1
    have hgraph := SameGraph.respell calls spelling
    have hgraph' := SameGraph.respell calls spelling'
    obtain ⟨waveOf₁, hok₁, hget₁⟩ :=
      waves_ofCalls_congr (Map.ahead a) hgraph (sorts_respell spelling hsort) hacyclic hget
    obtain ⟨waveOf₂, hok₂, hget₂⟩ :=
      waves_ofCalls_congr (Map.ahead b) hgraph' (sorts_respell spelling' hsort) hacyclic hget
    have heq := (h _ _ (fun _ => 0) (Map.ahead a) hgraph (sorts_respell spelling hsort)).symm.trans
      (h _ _ _ (Map.ahead b) hgraph' (sorts_respell spelling' hsort))
    rw [hok₁, hok₂] at heq
    rw [hget₁] at hdepth hdepth'
    refine groupWaves_ne_of_swap (hget₁.symm.trans hget₂) hdepth hdepth' hne ?_ ?_ (Map.ahead_lt hne)
      (Map.ahead_lt hne.symm) (Except.ok.inj heq)
    · rwa [waveKey, waveKey, interned_respell spelling ha, interned_respell spelling hb]
    · rwa [waveKey, waveKey, interned_respell spelling' ha, interned_respell spelling' hb]
  · intro h calls' sort' rank rank' hgraph hsort'
    obtain ⟨waveOf₁, hok₁, hget₁⟩ := waves_ofCalls_congr rank (.refl calls) hsort hacyclic hget
    obtain ⟨waveOf₂, hok₂, hget₂⟩ := waves_ofCalls_congr rank' hgraph hsort' hacyclic hget
    rw [hok₁, hok₂, groupWaves_congr (hget₁.symm.trans hget₂) fun k a ha b hb hne => ?_]
    rw [mem_jobsAt, ← hget₁] at ha hb
    obtain ⟨hma, hwa, hka⟩ := (hget a k).mp ha
    obtain ⟨hmb, hwb, hkb⟩ := (hget b k).mp hb
    -- each graph spells the two in some way
    have hkey := (built_ofCalls calls).wellFormed.key_interned
    have hkey' := (built_ofCalls calls').wellFormed.key_interned
    rcases h a b k hma hmb hwa hwb hka hkb hne with hlt | hlt
    · exact .inl ⟨hlt _ _ (hkey a) (hkey b), hlt _ _ (hkey' a) (hkey' b)⟩
    · exact .inr ⟨hlt _ _ (hkey b) (hkey a), hlt _ _ (hkey' b) (hkey' a)⟩

end Dag

/-! ## Samples -/

namespace Sample

/-- Two jobs whose scope and kind are different halves of one text. -/
def left {P : Type} : JobId P := ⟨.workspace "a|b", ⟨"c"⟩, .none⟩

def right {P : Type} : JobId P := ⟨.workspace "a", ⟨"b|c"⟩, .none⟩

def halves : List DagCall := [.ensureNode left, .ensureNode right]

/-- Two jobs with one slot, and one tick. -/
def raceForSlot : List Call :=
  [.registerJob ⟨left, fun _ => ⟨⟨0⟩, .ok⟩⟩, .registerJob ⟨right, fun _ => ⟨⟨0⟩, .ok⟩⟩,
    .installBudget oneSlot, .tick (Dag.ofCalls halves)]

/-- The phases of both jobs after the race, where the hash maps put `id` first. -/
def raceWon (id : JobId) : JobPhase × JobPhase :=
  let s := (runCalls { agedWorld with order := fun _ => Map.ahead id } raceForSlot
    (InProcessScheduler.new "shigoto").start).state
  (s.phase left, s.phase right)

/-- Two jobs about files, the first of which is declared once under each of two spellings. -/
def twoSpellings : List DagCall :=
  [.ensureNode (file "z//a"), .ensureNode (file "z/a"), .ensureNode (file "z/0")]

/-- A job and its dependency, beside a third job. -/
def besideChain : List DagCall := [.addEdge (jobId "a") (jobId "b"), .ensureNode (jobId "c")]

end Sample

namespace Dag

/-- The keys of the three jobs differ, so no order shows. -/
theorem waves_reproducible_chain :
    Sample.byAge.Sorts (ofCalls Sample.besideChain).graph ∧ ¬ (ofCalls Sample.besideChain).Cyclic ∧
      ∀ calls' sort' rank rank', SameGraph Sample.besideChain calls' → sort'.Sorts (ofCalls calls').graph →
        (ofCalls Sample.besideChain).waves Sample.byAge rank none =
          (ofCalls calls').waves sort' rank' none := by
  have hsorts : Sample.byAge.Sorts (ofCalls Sample.besideChain).graph := sorts_byAge fun i j hmem => by
    have hone : (ofCalls Sample.besideChain).graph.edges = [(0, 1)] := by decide
    grind
  have hacyclic : ¬ (ofCalls Sample.besideChain).Cyclic :=
    (built_ofCalls Sample.besideChain).wellFormed.acyclic_iff.mp (hsorts.ok_iff.mp ⟨_, rfl⟩)
  refine ⟨hsorts, hacyclic, (waves_reproducible_iff hsorts hacyclic none).mpr ?_⟩
  intro x y k hx hy _ _ _ _ hne
  have hthree : ∀ {id}, Mentions Sample.besideChain id → ∃ name ∈ ["a", "b", "c"], id = Sample.jobId name := by
    rintro id ⟨call, hcall, hid⟩
    simp only [Sample.besideChain, List.mem_cons, List.not_mem_nil, or_false] at hcall
    rcases hcall with rfl | rfl <;>
      simp only [DagCall.ids, DagCall.spelled, List.map_cons, List.map_nil, Sample.key_jobId] at hid <;> grind
  obtain ⟨name, hname, rfl⟩ := hthree hx
  obtain ⟨name', hname', rfl⟩ := hthree hy
  have hkeys : ∀ name ∈ ["a", "b", "c"], ∀ name' ∈ ["a", "b", "c"],
      stableJobKey (Sample.jobId name) = stableJobKey (Sample.jobId name') → name = name' := by decide
  refine JobId.apart_of_ne (s := Sample.jobId name) (t := Sample.jobId name') (by simp [Sample.jobId])
    (by simp [Sample.jobId]) fun hkey => hne ?_
  rw [hkeys name hname name' hname' hkey]

/-- Two jobs with one key: the hash map orders them, and the first one gets the slot. And two jobs with keys of
their own: the calls order them, by the spelling that comes first. -/
theorem waves_order_by_hash :
    (Sample.left : JobId) ≠ Sample.right ∧ stableJobKey Sample.left = stableJobKey Sample.right ∧
    Sample.byAge.Sorts (ofCalls Sample.halves).graph ∧ ¬ (ofCalls Sample.halves).Cyclic ∧
    (ofCalls Sample.halves).waves Sample.byAge (Map.ahead Sample.left) none =
      .ok [[Sample.left, Sample.right]] ∧
    (ofCalls Sample.halves).waves Sample.byAge (Map.ahead Sample.right) none =
      .ok [[Sample.right, Sample.left]] ∧
    Sample.raceWon Sample.left = (.succeeded, .running) ∧
    Sample.raceWon Sample.right = (.running, .succeeded) ∧
    (ofCalls Sample.twoSpellings).waves Sample.byAge (fun _ => 0) none =
      .ok [[(Sample.file "z/a").key, (Sample.file "z/0").key]] ∧
    (ofCalls Sample.twoSpellings.reverse).waves Sample.byAge (fun _ => 0) none =
      .ok [[(Sample.file "z/0").key, (Sample.file "z/a").key]] := by
  have hsorts : Sample.byAge.Sorts (ofCalls Sample.halves).graph := sorts_byAge fun i j hmem => by
    have hnone : (ofCalls Sample.halves).graph.edges = [] := by decide
    simp [hnone] at hmem
  have hacyclic : ¬ (ofCalls Sample.halves).Cyclic :=
    (built_ofCalls Sample.halves).wellFormed.acyclic_iff.mp (hsorts.ok_iff.mp ⟨_, rfl⟩)
  exact ⟨by decide, by decide, hsorts, hacyclic, by decide +kernel, by decide +kernel,
    by decide +kernel, by decide +kernel, by decide +kernel, by decide +kernel⟩

end Dag

end Shigoto
