import Shigoto.Dag
import Shigoto.Graph.Layering
import Mathlib.Data.List.Range

/-!
# The waves of a graph

What `ensure_node` and `add_edge` build is a relation between jobs (`Dag.Edge`). When petgraph sorts
its graph, `waves` is the longest-path layering of that relation, restricted to the wanted jobs: the
depths computed along the order are tight, and grouping them leaves no layer out.

The restriction looks at direct edges between wanted jobs only. A path that leaves the wanted jobs
does not order its ends.
-/

namespace Shigoto

open Layering Relation

/-! ## Sorting -/

/-- No node reaches itself. -/
def DiGraph.Acyclic (g : DiGraph) : Prop := ∀ i, ¬ TransGen (fun a b => (a, b) ∈ g.edges) i i

/-- Every node once, parents before children. -/
structure DiGraph.Sorted (g : DiGraph) (order : List NodeIndex) : Prop where
  perm : order.Perm (List.range g.nodes.length)
  parents : order.Pairwise fun i j => (j, i) ∉ g.edges

/-- What petgraph documents of `toposort` on this graph. -/
structure Toposort.Sorts (sort : Toposort) (g : DiGraph) : Prop where
  ok_iff : (∃ order, sort g = .ok order) ↔ g.Acyclic
  sorted : ∀ order, sort g = .ok order → g.Sorted order

namespace Dag

variable {dag : Dag} {id u v : JobId} {spelled source target : JobId PathBuf} {key : JobId → String}

/-! ## Building a graph -/

/-- A graph that was built by the two calls. -/
inductive Built : Dag → Prop
  | new : Built .new
  | ensureNode {dag : Dag} (h : Built dag) (id : JobId PathBuf) : Built (dag.ensureNode id)
  | addEdge {dag : Dag} (h : Built dag) (source target : JobId PathBuf) : Built (dag.addEdge source target)

/-- The job is a node of the graph. -/
def HasNode (dag : Dag) (id : JobId) : Prop := (dag.index.get? id).isSome = true

/-- The graph has an edge from `u` to `v`. -/
def Edge (dag : Dag) (u v : JobId) : Prop := u ∈ dag.predecessors v

/-- The index is the inverse of the node weights, and edges are between nodes. -/
structure WellFormed (dag : Dag) : Prop where
  indexed : ∀ id i, dag.index.get? id = some i ↔ dag.graph.ids[i]? = some id
  bounded : ∀ i j, (i, j) ∈ dag.graph.edges → i < dag.graph.nodes.length ∧ j < dag.graph.nodes.length

theorem WellFormed.lt_of_get? (h : dag.WellFormed) {i : NodeIndex} (hget : dag.index.get? id = some i) :
    i < dag.graph.nodes.length := by
  rw [← DiGraph.length_ids]
  exact (List.getElem?_eq_some_iff.mp ((h.indexed id i).mp hget)).1

theorem WellFormed.edge_iff (h : dag.WellFormed) : dag.Edge u v ↔
    ∃ i j, dag.index.get? u = some i ∧ dag.index.get? v = some j ∧ (i, j) ∈ dag.graph.edges := by
  unfold Edge predecessors
  cases hv : dag.index.get? v with
  | none => simp
  | some j =>
    simp only [parentsAt, DiGraph.neighborsIncoming, List.mem_filterMap, List.mem_map, List.mem_filter,
      decide_eq_true_iff]
    constructor
    · rintro ⟨i, ⟨⟨i', j'⟩, ⟨hmem, rfl⟩, rfl⟩, hu⟩
      exact ⟨i', j', (h.indexed u i').mpr hu, rfl, hmem⟩
    · rintro ⟨i, j', hu, hj, hmem⟩
      obtain rfl := Option.some.inj hj
      exact ⟨i, ⟨(i, j), ⟨hmem, rfl⟩, rfl⟩, (h.indexed u i).mp hu⟩

theorem WellFormed.nodes (h : dag.WellFormed) (hedge : dag.Edge u v) :
    dag.HasNode u ∧ dag.HasNode v := by
  obtain ⟨i, j, hu, hv, -⟩ := h.edge_iff.mp hedge
  exact ⟨Option.isSome_of_eq_some hu, Option.isSome_of_eq_some hv⟩

/-! ### What interning a node does -/

/-- A node is interned: it has an index, the other nodes keep theirs, and no edge is added. -/
structure Interned (dag : Dag) (spelled : JobId PathBuf) (idx : NodeIndex) (dag' : Dag) : Prop where
  wellFormed : dag'.WellFormed
  got : dag'.index.get? spelled.key = some idx
  kept : ∀ id i, dag.index.get? id = some i → dag'.index.get? id = some i
  old : ∀ id i, dag'.index.get? id = some i → i < dag.graph.nodes.length → dag.index.get? id = some i
  edges : dag'.graph.edges = dag.graph.edges
  nodes : ∀ v, dag'.HasNode v ↔ dag.HasNode v ∨ v = spelled.key

theorem nodeIndex_of_some {idx : NodeIndex} (h : dag.index.get? spelled.key = some idx) :
    dag.nodeIndex spelled = (idx, dag) := by
  simp only [Dag.nodeIndex, h]

theorem nodeIndex_of_none (h : dag.index.get? spelled.key = none) :
    dag.nodeIndex spelled = (dag.graph.nodes.length, { dag with
      graph := { dag.graph with nodes := dag.graph.nodes ++ [spelled] }
      index := dag.index.insert spelled.key dag.graph.nodes.length }) := by
  simp only [Dag.nodeIndex, h, DiGraph.addNode]

/-- The node weights with one more at the end. -/
theorem getElem?_ids_append (h : dag.WellFormed) (hnone : dag.index.get? id = none) (id' : JobId)
    (i : NodeIndex) : Map.get? (dag.index.insert id dag.graph.nodes.length) id' = some i ↔
      (dag.graph.ids ++ [id])[i]? = some id' := by
  rw [Map.get?_insert, ← dag.graph.length_ids]
  rcases Nat.lt_trichotomy i dag.graph.ids.length with hlt | rfl | hgt
  · rw [List.getElem?_append_left hlt, ← h.indexed]
    split
    · next heq =>
      subst heq
      rw [hnone]
      simpa using hlt.ne'
    · rfl
  · rw [List.getElem?_append_right le_rfl, Nat.sub_self]
    split
    · next heq => simp [heq]
    · next hne =>
      rw [h.indexed, List.getElem?_eq_none le_rfl]
      simp [Ne.symm hne]
  · rw [List.getElem?_eq_none (by simp only [List.length_append, List.length_singleton]; omega)]
    split
    · simpa using hgt.ne
    · rw [h.indexed, List.getElem?_eq_none hgt.le]

theorem WellFormed.nodeIndex (h : dag.WellFormed) (spelled : JobId PathBuf) :
    Interned dag spelled (dag.nodeIndex spelled).1 (dag.nodeIndex spelled).2 := by
  cases hspelled : dag.index.get? spelled.key with
  | some idx =>
    rw [nodeIndex_of_some hspelled]
    refine ⟨h, hspelled, fun _ _ hget => hget, fun _ _ hget _ => hget, rfl, fun v => ?_⟩
    rw [iff_self_or]
    rintro rfl
    exact Option.isSome_of_eq_some hspelled
  | none =>
    rw [nodeIndex_of_none hspelled]
    refine ⟨⟨fun id i => ?_, fun i j hmem => ?_⟩, Map.get?_insert_self _ _ _,
      fun id i hget => ?_, fun id i hget hlt => ?_, rfl, fun v => ?_⟩
    · rw [DiGraph.ids, List.map_append]
      exact getElem?_ids_append h hspelled id i
    · obtain ⟨hi, hj⟩ := h.bounded i j hmem
      rw [List.length_append]
      exact ⟨Nat.lt_add_right _ hi, Nat.lt_add_right _ hj⟩
    · have hne : id ≠ spelled.key := by
        rintro rfl
        simp [hspelled] at hget
      rwa [Map.get?_insert_ne _ _ hne]
    · rw [Map.get?_insert] at hget
      split at hget
      · obtain rfl := Option.some.inj hget
        exact absurd hlt (lt_irrefl _)
      · exact hget
    · unfold HasNode
      rw [Map.get?_insert]
      split
      · next heq => simp [heq]
      · next hne => simp [hne]

theorem Interned.edge_iff {idx : NodeIndex} {dag' : Dag} (h : Interned dag spelled idx dag')
    (hwf : dag.WellFormed) (u v : JobId) : dag'.Edge u v ↔ dag.Edge u v := by
  rw [h.wellFormed.edge_iff, hwf.edge_iff, h.edges]
  constructor
  · rintro ⟨i, j, hu, hv, hmem⟩
    obtain ⟨hi, hj⟩ := hwf.bounded i j hmem
    exact ⟨i, j, h.old u i hu hi, h.old v j hv hj, hmem⟩
  · rintro ⟨i, j, hu, hv, hmem⟩
    exact ⟨i, j, h.kept u i hu, h.kept v j hv, hmem⟩

/-! ### What the two calls do -/

theorem WellFormed.ensureNode (h : dag.WellFormed) (spelled : JobId PathBuf) :
    (dag.ensureNode spelled).WellFormed ∧
      (∀ v, (dag.ensureNode spelled).HasNode v ↔ dag.HasNode v ∨ v = spelled.key) ∧
      ∀ u v, (dag.ensureNode spelled).Edge u v ↔ dag.Edge u v := by
  have hnode := h.nodeIndex spelled
  exact ⟨⟨hnode.wellFormed.indexed, hnode.wellFormed.bounded⟩, hnode.nodes, hnode.edge_iff h⟩

theorem WellFormed.addEdge (h : dag.WellFormed) (source target : JobId PathBuf) :
    (dag.addEdge source target).WellFormed ∧
      (∀ v, (dag.addEdge source target).HasNode v ↔ dag.HasNode v ∨ v = source.key ∨ v = target.key) ∧
      ∀ u v, (dag.addEdge source target).Edge u v ↔ dag.Edge u v ∨ u = source.key ∧ v = target.key := by
  obtain ⟨f, dag₁, hf⟩ : ∃ f dag₁, dag.nodeIndex source = (f, dag₁) := ⟨_, _, rfl⟩
  obtain ⟨t, dag₂, ht⟩ : ∃ t dag₂, dag₁.nodeIndex target = (t, dag₂) := ⟨_, _, rfl⟩
  have hsource := h.nodeIndex source
  rw [hf] at hsource
  have htarget := hsource.wellFormed.nodeIndex target
  rw [ht] at htarget
  have hwf := htarget.wellFormed
  have hnodes : ∀ v, dag₂.HasNode v ↔ dag.HasNode v ∨ v = source.key ∨ v = target.key := fun v => by
    rw [htarget.nodes, hsource.nodes, or_assoc]
  have hedges : ∀ u v, dag₂.Edge u v ↔ dag.Edge u v := fun u v =>
    (htarget.edge_iff hsource.wellFormed u v).trans (hsource.edge_iff h u v)
  have hfi : dag₂.index.get? source.key = some f := htarget.kept source.key f hsource.got
  have hti : dag₂.index.get? target.key = some t := htarget.got
  have hadd : dag.addEdge source target = if dag₂.graph.containsEdge f t then dag₂
      else { dag₂ with graph := dag₂.graph.addEdge f t } := by
    simp only [Dag.addEdge, hf, ht]
  rw [hadd]
  split
  · next hcontains =>
    -- the edge is there already
    have hmem : (f, t) ∈ dag₂.graph.edges := by simpa [DiGraph.containsEdge] using hcontains
    refine ⟨hwf, hnodes, fun u v => ?_⟩
    rw [hedges, iff_self_or]
    rintro ⟨rfl, rfl⟩
    rw [← hedges]
    exact hwf.edge_iff.mpr ⟨f, t, hfi, hti, hmem⟩
  · -- a new edge, between two indices that the two names have just been given
    have hwf' : WellFormed { dag₂ with graph := dag₂.graph.addEdge f t } := by
      refine ⟨hwf.indexed, fun i j hmem => ?_⟩
      rcases List.mem_cons.mp hmem with heq | hold
      · obtain ⟨rfl, rfl⟩ := Prod.mk.inj heq
        exact ⟨hwf.lt_of_get? hfi, hwf.lt_of_get? hti⟩
      · exact hwf.bounded i j hold
    refine ⟨hwf', hnodes, fun u v => ?_⟩
    rw [hwf'.edge_iff, ← hedges, hwf.edge_iff]
    constructor
    · rintro ⟨i, j, hu, hv, hmem⟩
      rcases List.mem_cons.mp hmem with heq | hold
      · obtain ⟨rfl, rfl⟩ := Prod.mk.inj heq
        have hu' := (hwf.indexed u i).mp hu
        have hv' := (hwf.indexed v j).mp hv
        rw [(hwf.indexed source.key i).mp hfi] at hu'
        rw [(hwf.indexed target.key j).mp hti] at hv'
        exact .inr ⟨(Option.some.inj hu').symm, (Option.some.inj hv').symm⟩
      · exact .inl ⟨i, j, hu, hv, hold⟩
    · rintro (⟨i, j, hu, hv, hmem⟩ | ⟨rfl, rfl⟩)
      · exact ⟨i, j, hu, hv, List.mem_cons_of_mem _ hmem⟩
      · exact ⟨f, t, hfi, hti, List.mem_cons_self⟩

theorem Built.wellFormed (h : dag.Built) : dag.WellFormed := by
  induction h with
  | new => exact ⟨fun id i => by simp [Dag.new, DiGraph.empty], by simp [Dag.new, DiGraph.empty]⟩
  | ensureNode h id ih => exact (ih.ensureNode id).1
  | addEdge h source target ih => exact (ih.addEdge source target).1

/-! ## Depths along the order -/

/-- The jobs in the order that the sort gives. -/
def orderOf (dag : Dag) (order : List NodeIndex) : List JobId :=
  order.filterMap fun i => dag.graph.ids[i]?

/-- A list of all jobs of the graph, each once, parents before children. -/
structure Ordered (dag : Dag) (order : List JobId) : Prop where
  mem : ∀ id, id ∈ order ↔ dag.HasNode id
  nodup : order.Nodup
  parents : order.Pairwise fun u v => ¬ dag.Edge v u
  loopless : ∀ u, ¬ dag.Edge u u

theorem WellFormed.ordered (h : dag.WellFormed) {order : List NodeIndex}
    (hsorted : dag.graph.Sorted order) (hacyclic : dag.graph.Acyclic) :
    dag.Ordered (dag.orderOf order) := by
  have hindex : ∀ {id i}, dag.graph.ids[i]? = some id → dag.index.get? id = some i :=
    fun hi => (h.indexed _ _).mpr hi
  refine ⟨fun id => ?_, ?_, ?_, fun u hedge => ?_⟩
  · simp only [orderOf, List.mem_filterMap, HasNode, Option.isSome_iff_exists, h.indexed]
    constructor
    · rintro ⟨i, -, hi⟩
      exact ⟨i, hi⟩
    · rintro ⟨i, hi⟩
      refine ⟨i, hsorted.perm.mem_iff.mpr (List.mem_range.mpr ?_), hi⟩
      exact h.lt_of_get? (hindex hi)
  · refine List.Nodup.filterMap (fun i j id hi hj => ?_) (hsorted.perm.nodup_iff.mpr List.nodup_range)
    exact Option.some.inj ((hindex hi).symm.trans (hindex hj))
  · refine List.pairwise_filterMap.mpr (hsorted.parents.imp fun {i j} hnot u hu v hv hedge => hnot ?_)
    obtain ⟨j', i', hj, hi, hmem⟩ := h.edge_iff.mp hedge
    rw [hindex hu] at hi
    rw [hindex hv] at hj
    rwa [Option.some.inj hi, Option.some.inj hj]
  · obtain ⟨i, j, hi, hj, hmem⟩ := h.edge_iff.mp hedge
    obtain rfl := Option.some.inj (hi.symm.trans hj)
    exact hacyclic i (.single hmem)

theorem get?_assignWaves_of_not_mem {want : JobId → Bool} {order : List JobId} {waveOf : Map JobId Nat}
    (h : id ∉ order) : (dag.assignWaves want order waveOf).get? id = waveOf.get? id := by
  induction order generalizing waveOf with
  | nil => rfl
  | cons id' order ih =>
    obtain ⟨hne, hrest⟩ := not_or.mp (List.mem_cons.not.mp h)
    unfold assignWaves
    split
    · rw [ih hrest, Map.get?_insert_ne _ _ hne]
    · exact ih hrest

theorem get?_assignWaves_of_not_want {want : JobId → Bool} (h : want id = false) (order : List JobId)
    (waveOf : Map JobId Nat) : (dag.assignWaves want order waveOf).get? id = waveOf.get? id := by
  induction order generalizing waveOf with
  | nil => rfl
  | cons id' order ih =>
    unfold assignWaves
    split
    · next hwant =>
      have hne : id ≠ id' := by
        rintro rfl
        simp [h] at hwant
      rw [ih, Map.get?_insert_ne _ _ hne]
    · exact ih waveOf

/-- Only the entries of the predecessors matter for a depth. -/
theorem foldl_deepen_congr {want : JobId → Bool} {waveOf waveOf' : Map JobId Nat} {ids : List JobId}
    (h : ∀ id ∈ ids, waveOf.get? id = waveOf'.get? id) (depth : Nat) :
    ids.foldl (deepen want waveOf) depth = ids.foldl (deepen want waveOf') depth := by
  apply List.foldl_ext
  intro depth id hid
  rw [deepen, deepen, h id hid]

/-- **The depth of a wanted job is the one that its predecessors give it in the end**: their depths are
settled before its turn and do not change after it. -/
theorem get?_assignWaves {want : JobId → Bool} {order : List JobId} (hnodup : order.Nodup)
    (hparents : order.Pairwise fun u v => ¬ dag.Edge v u) (hself : ∀ u, ¬ dag.Edge u u)
    (waveOf : Map JobId Nat) : ∀ id ∈ order, want id = true →
      (dag.assignWaves want order waveOf).get? id = some ((dag.predecessors id).foldl
        (deepen want (dag.assignWaves want order waveOf)) 0) := by
  induction order generalizing waveOf with
  | nil => exact fun id hid => absurd hid List.not_mem_nil
  | cons first order ih =>
    obtain ⟨hnew, hnodup⟩ := List.nodup_cons.mp hnodup
    obtain ⟨hfirst, hparents⟩ := List.pairwise_cons.mp hparents
    intro id hid hwant
    rcases List.mem_cons.mp hid with rfl | hid
    · rw [assignWaves, if_pos hwant, get?_assignWaves_of_not_mem hnew, Map.get?_insert_self]
      refine congrArg some (foldl_deepen_congr (fun p hp => ?_) 0)
      have hpne : p ≠ id := fun h => hself id (by rwa [h] at hp)
      have hprest : p ∉ order := fun hmem => hfirst p hmem hp
      rw [get?_assignWaves_of_not_mem hprest, Map.get?_insert_ne _ _ hpne]
    · rw [assignWaves]
      split
      · exact ih hnodup hparents _ id hid hwant
      · exact ih hnodup hparents _ id hid hwant

/-! ## The layering -/

/-- The edges between wanted jobs. -/
def EdgeAmong (dag : Dag) (wanted : JobId → Prop) (u v : JobId) : Prop :=
  wanted u ∧ wanted v ∧ dag.Edge u v

/-- The depth that a job was given; any other job is at depth zero. -/
def depthIn (waveOf : Map JobId Nat) (id : JobId) : Nat := (waveOf.get? id).getD 0

theorem foldl_deepen_eq {want : JobId → Bool} {waveOf : Map JobId Nat} {ids : List JobId}
    (h : ∀ id ∈ ids, want id = true → (waveOf.get? id).isSome = true) (depth : Nat) :
    ids.foldl (deepen want waveOf) depth =
      (ids.filter want).foldl (fun d id => max d (depthIn waveOf id + 1)) depth := by
  induction ids generalizing depth with
  | nil => rfl
  | cons id ids ih =>
    have hrest := ih fun id' hid' => h id' (List.mem_cons_of_mem id hid')
    rw [List.foldl_cons, hrest, List.filter_cons]
    unfold deepen
    split
    · next hwant =>
      obtain ⟨d, hd⟩ := Option.isSome_iff_exists.mp (h id List.mem_cons_self hwant)
      rw [hd, List.foldl_cons, depthIn, hd]
      rfl
    · rfl

/-- **The assigned depths are tight.** -/
theorem Ordered.tight {order : List JobId} (h : dag.Ordered order) (hwf : dag.WellFormed)
    (want : JobId → Bool) :
    Tight (dag.EdgeAmong fun id => want id = true) (depthIn (dag.assignWaves want order ∅)) := by
  set waveOf := dag.assignWaves want order ∅ with hwaveOf
  have hwanted : ∀ id, dag.HasNode id → want id = true → waveOf.get? id =
      some ((dag.predecessors id).foldl (deepen want waveOf) 0) := fun id hnode hwant =>
    get?_assignWaves h.nodup h.parents h.loopless ∅ id ((h.mem id).mpr hnode) hwant
  refine tight_of_deepest (fun id => if want id then (dag.predecessors id).filter want else [])
    (fun u v => ?_) fun id => ?_
  · by_cases hv : want v = true
    · rw [if_pos hv, List.mem_filter]
      exact ⟨fun hedge => ⟨hedge.2.2, hedge.1⟩, fun hedge => ⟨hedge.2, hv, hedge.1⟩⟩
    · rw [if_neg hv]
      exact iff_of_false (fun hedge => hv hedge.2.1) List.not_mem_nil
  · by_cases hwant : want id = true
    · rw [if_pos hwant]
      by_cases hnode : dag.HasNode id
      · rw [depthIn, hwanted id hnode hwant, Option.getD_some]
        refine foldl_deepen_eq (fun p hp hwantp => ?_) 0
        rw [hwanted p (hwf.nodes hp).1 hwantp]
        rfl
      · have hnone : dag.predecessors id = [] := by
          refine List.eq_nil_iff_forall_not_mem.mpr fun p hp => hnode (hwf.nodes hp).2
        have hunset : waveOf.get? id = none :=
          get?_assignWaves_of_not_mem fun hmem => hnode ((h.mem id).mp hmem)
        rw [hnone, depthIn, hunset]
        rfl
    · have hunset : waveOf.get? id = none :=
        get?_assignWaves_of_not_want (Bool.eq_false_of_not_eq_true hwant) order ∅
      rw [if_neg hwant, depthIn, hunset]
      rfl

/-- The layers of the longest paths between wanted jobs. -/
structure LongestPathLayers (dag : Dag) (wanted : JobId → Prop) (ws : List (List JobId)) : Prop where
  mem : ∀ id, id ∈ ws.flatten ↔ dag.HasNode id ∧ wanted id
  once : ws.flatten.Nodup
  longest : ∀ (k : Nat) wave, ws[k]? = some wave → ∀ id ∈ wave, Longest (dag.EdgeAmong wanted) id k
  later : ∀ (i j : Nat) wave wave', ws[i]? = some wave → ws[j]? = some wave' → ∀ u ∈ wave, ∀ v ∈ wave',
    dag.Edge u v → i < j
  gapless : (∃ id, dag.HasNode id ∧ wanted id) → ∀ wave ∈ ws, wave ≠ []
  vacant : (∀ id, dag.HasNode id → ¬ wanted id) → ws = [[]]

/-- Every depth that occurs has its wave. -/
theorem exists_groupWaves (rank : JobId → Nat) {waveOf : Map JobId Nat} {k : Nat}
    (h : waveOf.get? id = some k) : ∃ wave, (groupWaves key rank waveOf)[k]? = some wave := by
  have hle : k ≤ ((waveOf.iterate rank).map (·.2)).foldl max 0 := by
    rw [List.foldl_map]
    exact (le_foldl_max (fun e : JobId × Nat => e.2) _ 0).2 (id, k)
      ((Map.mem_iterate rank waveOf id k).mpr h)
  refine ⟨_, List.getElem?_eq_getElem ?_⟩
  rw [groupWaves, List.length_map, List.length_range]
  omega

/-- The last wave is that of the deepest job. -/
theorem le_of_groupWaves {rank : JobId → Nat} {waveOf : Map JobId Nat} {k : Nat} {wave : List JobId}
    (h : (groupWaves key rank waveOf)[k]? = some wave) :
    k = 0 ∨ ∃ id d, waveOf.get? id = some d ∧ k ≤ d := by
  have hlt := (List.getElem?_eq_some_iff.mp h).1
  rw [groupWaves, List.length_map, List.length_range, List.foldl_map] at hlt
  rcases foldl_max_eq (fun e : JobId × Nat => e.2) (waveOf.iterate rank) 0 with
    hzero | ⟨⟨id, d⟩, hmem, heq⟩
  · left
    omega
  · exact .inr ⟨id, d, (Map.mem_iterate rank waveOf id d).mp hmem, by omega⟩

/-- A job is in some wave exactly when it was given a depth. -/
theorem mem_flatten_groupWaves {rank : JobId → Nat} {waveOf : Map JobId Nat} :
    id ∈ (groupWaves key rank waveOf).flatten ↔ (waveOf.get? id).isSome = true := by
  rw [List.mem_flatten, Option.isSome_iff_exists]
  constructor
  · rintro ⟨wave, hwave, hid⟩
    obtain ⟨k, hk⟩ := List.getElem?_of_mem hwave
    exact ⟨k, (mem_groupWaves hk id).mp hid⟩
  · rintro ⟨k, hk⟩
    obtain ⟨wave, hwave⟩ := exists_groupWaves rank hk
    exact ⟨wave, List.mem_of_getElem? hwave, (mem_groupWaves hwave id).mpr hk⟩

/-! ## What `waves` returns -/

/-- The job is in the affected part; without one every job is. -/
def Wanted (affected : Option (Finset JobId)) (id : JobId) : Prop :=
  (affected.all fun s => decide (id ∈ s)) = true

/-- What a successful call of `waves` was computed from. -/
theorem waves_ok {sort : Toposort} {rank : JobId → Nat} {affected : Option (Finset JobId)}
    {ws : List (List JobId)} (hwf : dag.WellFormed) (hsort : sort.Sorts dag.graph)
    (h : dag.waves sort rank affected = .ok ws) : ∃ waveOf, ws = groupWaves dag.waveKey rank waveOf ∧
      Tight (dag.EdgeAmong (Wanted affected)) (depthIn waveOf) ∧
      ∀ id, (waveOf.get? id).isSome = true ↔ dag.HasNode id ∧ Wanted affected id := by
  unfold waves toposort at h
  cases horder : sort dag.graph with
  | error i => simp [horder] at h
  | ok order =>
    rw [horder] at h
    have hordered := hwf.ordered (hsort.sorted order horder) (hsort.ok_iff.mp ⟨order, horder⟩)
    set want : JobId → Bool := fun id => affected.all fun s => decide (id ∈ s) with hwant
    refine ⟨dag.assignWaves want (dag.orderOf order) ∅, (Except.ok.inj h).symm, hordered.tight hwf want,
      fun id => ?_⟩
    by_cases hnode : dag.HasNode id
    · by_cases hid : want id = true
      · have hget := get?_assignWaves hordered.nodup hordered.parents hordered.loopless ∅ id
          ((hordered.mem id).mpr hnode) hid
        exact iff_of_true (Option.isSome_of_eq_some hget) ⟨hnode, hid⟩
      · have hget : (dag.assignWaves want (dag.orderOf order) ∅).get? id = none :=
          get?_assignWaves_of_not_want (Bool.eq_false_of_not_eq_true hid) _ ∅
        rw [hget]
        exact iff_of_false Bool.false_ne_true fun h => hid h.2
    · have hget : (dag.assignWaves want (dag.orderOf order) ∅).get? id = none :=
        get?_assignWaves_of_not_mem fun hmem => hnode ((hordered.mem id).mp hmem)
      rw [hget]
      exact iff_of_false Bool.false_ne_true fun h => hnode h.1

/-- A job that depends on another through wanted jobs is in a later wave. -/
theorem lt_of_depends {wanted : JobId → Prop} {rank : JobId → Nat} {waveOf : Map JobId Nat}
    (h : Tight (dag.EdgeAmong wanted) (depthIn waveOf)) {i j : Nat} {wave wave' : List JobId}
    (hi : (groupWaves key rank waveOf)[i]? = some wave) (hj : (groupWaves key rank waveOf)[j]? = some wave')
    (hu : u ∈ wave) (hv : v ∈ wave') (hpath : TransGen (dag.EdgeAmong wanted) u v) : i < j := by
  have hlt := h.lt_of_transGen hpath
  rwa [depthIn, depthIn, (mem_groupWaves hi u).mp hu, (mem_groupWaves hj v).mp hv] at hlt

theorem layers_of_tight {wanted : JobId → Prop} {rank : JobId → Nat} {waveOf : Map JobId Nat}
    (hwf : dag.WellFormed) (h : Tight (dag.EdgeAmong wanted) (depthIn waveOf))
    (hmem : ∀ id, (waveOf.get? id).isSome = true ↔ dag.HasNode id ∧ wanted id) :
    LongestPathLayers dag wanted (groupWaves key rank waveOf) := by
  have hdepth : ∀ {id k}, waveOf.get? id = some k → depthIn waveOf id = k := fun hget => by
    rw [depthIn, hget]
    rfl
  refine ⟨fun id => mem_flatten_groupWaves.trans (hmem id), groupWaves_nodup key rank waveOf, ?_, ?_, ?_, ?_⟩
  · intro k wave hwave id hid
    have hlongest := h.longest id
    rwa [hdepth ((mem_groupWaves hwave id).mp hid)] at hlongest
  · intro i j wave wave' hi hj u hu v hv hedge
    have hwanted : ∀ {k wave id}, (groupWaves key rank waveOf)[k]? = some wave → id ∈ wave → wanted id :=
      fun hk hid => ((hmem _).mp (Option.isSome_of_eq_some ((mem_groupWaves hk _).mp hid))).2
    exact lt_of_depends h hi hj hu hv (.single ⟨hwanted hi hu, hwanted hj hv, hedge⟩)
  · rintro ⟨id, hid⟩ wave hwave hnil
    obtain ⟨k, hk⟩ := List.getElem?_of_mem hwave
    -- the deepest job, or any if `k` is the first wave
    obtain ⟨id', d, hget, hle⟩ : ∃ id d, waveOf.get? id = some d ∧ k ≤ d := by
      rcases le_of_groupWaves hk with rfl | hdeep
      · obtain ⟨d, hd⟩ := Option.isSome_iff_exists.mp ((hmem id).mpr hid)
        exact ⟨id, d, hd, Nat.zero_le d⟩
      · exact hdeep
    obtain ⟨id'', hp, hd⟩ := h.exists_of_le (p := fun id => dag.HasNode id ∧ wanted id)
      (fun u v hedge => ⟨(hwf.nodes hedge.2.2).1, hedge.1⟩)
      ((hmem id').mp (Option.isSome_of_eq_some hget)) (hle.trans (hdepth hget).ge)
    obtain ⟨d', hd'⟩ := Option.isSome_iff_exists.mp ((hmem id'').mpr hp)
    have hin := (mem_groupWaves hk id'').mpr (by rw [hd', ← hd, hdepth hd'])
    rw [hnil] at hin
    exact absurd hin List.not_mem_nil
  · intro hvacant
    have hempty : ∀ {id k}, waveOf.get? id ≠ some k := fun {id k} hget => by
      obtain ⟨hnode, hwanted⟩ := (hmem id).mp (Option.isSome_of_eq_some hget)
      exact hvacant id hnode hwanted
    refine List.ext_getElem? fun k => ?_
    cases hk : (groupWaves key rank waveOf)[k]? with
    | none =>
      cases k with
      | zero => simp [groupWaves] at hk
      | succ k => rfl
    | some wave =>
      have hnil : wave = [] := List.eq_nil_iff_forall_not_mem.mpr fun id hid =>
        hempty ((mem_groupWaves hk id).mp hid)
      rcases le_of_groupWaves hk with rfl | ⟨id, d, hget, -⟩
      · rw [hnil]
        rfl
      · exact absurd hget hempty

/-! ## Cycles -/

/-- Some job depends on itself. -/
def Cyclic (dag : Dag) : Prop := ∃ id, TransGen dag.Edge id id

theorem WellFormed.acyclic_iff (h : dag.WellFormed) : dag.graph.Acyclic ↔ ¬ dag.Cyclic := by
  constructor
  · rintro hacyclic ⟨id, hpath⟩
    refine hacyclic _ (TransGen.lift (fun id => (dag.index.get? id).getD 0) (fun u v hedge => ?_) id id hpath)
    obtain ⟨i, j, hu, hv, hmem⟩ := h.edge_iff.mp hedge
    show ((dag.index.get? u).getD 0, (dag.index.get? v).getD 0) ∈ dag.graph.edges
    rwa [hu, hv]
  · intro hacyclic i hpath
    let job : NodeIndex → JobId := fun i => (dag.graph.ids[i]?).getD ⟨.global, ⟨""⟩, .none⟩
    refine hacyclic ⟨job i, TransGen.lift job (fun i j hmem => ?_) i i hpath⟩
    obtain ⟨hi, hj⟩ := h.bounded i j hmem
    have hjob : ∀ k, k < dag.graph.nodes.length → dag.index.get? (job k) = some k := fun k hk =>
      (h.indexed (job k) k).mpr (by simp [job, hk])
    exact h.edge_iff.mpr ⟨i, j, hjob i hi, hjob j hj, hmem⟩

theorem waves_error_iff {sort : Toposort} {rank : JobId → Nat} {affected : Option (Finset JobId)} :
    (∃ e, dag.waves sort rank affected = .error e) ↔ ¬ ∃ order, sort dag.graph = .ok order := by
  unfold waves toposort
  cases sort dag.graph <;> simp

/-! ## Along the waves -/

theorem WellFormed.mem_ids (h : dag.WellFormed) {id : JobId} :
    id ∈ dag.graph.ids ↔ dag.HasNode id := by
  rw [HasNode, Option.isSome_iff_exists, List.mem_iff_getElem?]
  exact exists_congr fun i => (h.indexed id i).symm

theorem WellFormed.ids_nodup (h : dag.WellFormed) : dag.graph.ids.Nodup := by
  refine List.nodup_iff_injective_getElem.mpr fun i j hij => Fin.ext ?_
  have hij : dag.graph.ids[i.val] = dag.graph.ids[j.val] := hij
  have hi := (h.indexed _ _).mpr (List.getElem?_eq_getElem i.isLt)
  have hj := (h.indexed _ _).mpr (List.getElem?_eq_getElem j.isLt)
  rw [hij] at hi
  exact Option.some.inj (hi.symm.trans hj)

/-- Each job of a wave depends only on what is done already and on earlier waves. -/
def Layered (dag : Dag) : (JobId → Prop) → List (List JobId) → Prop
  | _, [] => True
  | done, wave :: waves => (∀ id ∈ wave, ∀ pred ∈ dag.predecessors id, done pred) ∧
      dag.Layered (fun id => done id ∨ id ∈ wave) waves

theorem Layered.mono {done done' : JobId → Prop} {ws : List (List JobId)} (h : dag.Layered done ws)
    (hdone : ∀ id, done id → done' id) : dag.Layered done' ws := by
  induction ws generalizing done done' with
  | nil => exact True.intro
  | cons wave ws ih =>
    exact ⟨fun id hid pred hpred => hdone pred (h.1 id hid pred hpred),
      ih h.2 fun id => Or.imp_left (hdone id)⟩

theorem LongestPathLayers.layered (hwf : dag.WellFormed) {before ws : List (List JobId)}
    (h : LongestPathLayers dag (Wanted none) (before ++ ws)) :
    dag.Layered (fun id => id ∈ before.flatten) ws := by
  induction ws generalizing before with
  | nil => exact True.intro
  | cons wave ws ih =>
    refine ⟨fun id hid pred hpred => ?_, ?_⟩
    · have hedge : dag.Edge pred id := hpred
      have hmem := (h.mem pred).mpr ⟨(hwf.nodes hedge).1, rfl⟩
      obtain ⟨wave', hwave', hpred'⟩ := List.mem_flatten.mp hmem
      obtain ⟨i, hi⟩ := List.getElem?_of_mem hwave'
      have hlt : i < before.length :=
        h.later i before.length wave' wave hi (by simp) pred hpred' id hid hedge
      rw [List.getElem?_append_left hlt] at hi
      exact List.mem_flatten.mpr ⟨wave', List.mem_of_getElem? hi, hpred'⟩
    · have hrest : LongestPathLayers dag (Wanted none) ((before ++ [wave]) ++ ws) := by
        rwa [List.append_assoc]
      exact (ih hrest).mono fun id hid => by simpa using hid

/-- **The waves of an acyclic graph** list its nodes, each after its predecessors. -/
theorem waves_layered {sort : Toposort} (rank : JobId → Nat) (hbuilt : dag.Built)
    (hsort : sort.Sorts dag.graph) (hacyclic : ¬ dag.Cyclic) :
    ∃ ws, dag.waves sort rank none = .ok ws ∧ dag.Layered (fun _ => False) ws ∧
      ws.flatten.Perm dag.graph.ids := by
  have hwf := hbuilt.wellFormed
  cases hok : dag.waves sort rank none with
  | error e =>
    refine absurd ⟨e, hok⟩ (mt waves_error_iff.mp (not_not.mpr ?_))
    exact hsort.ok_iff.mpr (hwf.acyclic_iff.mpr hacyclic)
  | ok ws =>
    obtain ⟨waveOf, rfl, htight, hmem⟩ := waves_ok hwf hsort hok
    have hlayers : LongestPathLayers dag (Wanted none) (groupWaves dag.waveKey rank waveOf) :=
      layers_of_tight hwf htight hmem
    refine ⟨_, rfl, ?_, ?_⟩
    · have hlayered : dag.Layered (fun id => id ∈ ([] : List (List JobId)).flatten) _ :=
        hlayers.layered hwf
      exact hlayered.mono fun id hid => absurd hid List.not_mem_nil
    · refine (List.perm_ext_iff_of_nodup hlayers.once hwf.ids_nodup).mpr fun id => ?_
      rw [hlayers.mem, hwf.mem_ids]
      exact and_iff_left rfl

/-! ## The results -/

/-- **`waves` is the longest-path layering.** For every graph that was built by the two calls and every
affected part, when petgraph sorts this graph: `waves` fails exactly on a cycle, and otherwise each
wanted job of the graph is in exactly one wave, at the length of the longest path of wanted jobs that
ends there; no wave is empty unless nothing is wanted. -/
theorem waves_longest_path {sort : Toposort} (rank : JobId → Nat) (hbuilt : dag.Built)
    (hsort : sort.Sorts dag.graph) (affected : Option (Finset JobId)) :
    ((∃ e, dag.waves sort rank affected = .error e) ↔ dag.Cyclic) ∧
    ∀ ws, dag.waves sort rank affected = .ok ws → LongestPathLayers dag (Wanted affected) ws := by
  have hwf := hbuilt.wellFormed
  refine ⟨?_, fun ws hok => ?_⟩
  · rw [waves_error_iff, hsort.ok_iff, hwf.acyclic_iff, not_not]
  · obtain ⟨waveOf, rfl, htight, hmem⟩ := waves_ok hwf hsort hok
    exact layers_of_tight hwf htight hmem

/-- **A restricted layering respects the dependencies between its jobs**: of two jobs in the affected
part, one that depends on the other along a path inside this part is in a strictly later wave. -/
theorem waves_respect_affected {sort : Toposort} (rank : JobId → Nat) (hbuilt : dag.Built)
    (hsort : sort.Sorts dag.graph) (hacyclic : ¬ dag.Cyclic) (affected : Finset JobId) :
    ∃ ws, dag.waves sort rank (some affected) = .ok ws ∧
      ∀ u v, TransGen (dag.EdgeAmong fun id => id ∈ affected) u v →
        u ∈ ws.flatten ∧ v ∈ ws.flatten ∧
        ∀ (i j : Nat) wave wave', ws[i]? = some wave → ws[j]? = some wave' → u ∈ wave → v ∈ wave' →
          i < j := by
  have hwf := hbuilt.wellFormed
  cases hok : dag.waves sort rank (some affected) with
  | error e =>
    refine absurd ⟨e, hok⟩ (mt waves_error_iff.mp (not_not.mpr ?_))
    exact hsort.ok_iff.mpr (hwf.acyclic_iff.mpr hacyclic)
  | ok ws =>
    obtain ⟨waveOf, rfl, htight, hmem⟩ := waves_ok hwf hsort hok
    refine ⟨_, rfl, fun u v hpath => ?_⟩
    have hpath : TransGen (dag.EdgeAmong (Wanted (some affected))) u v :=
      TransGen.mono (fun u v hedge => ⟨decide_eq_true hedge.1, decide_eq_true hedge.2.1, hedge.2.2⟩) u v hpath
    obtain ⟨_, hfirst, -⟩ := TransGen.head'_iff.mp hpath
    obtain ⟨_, -, hlast⟩ := TransGen.tail'_iff.mp hpath
    exact ⟨mem_flatten_groupWaves.mpr ((hmem u).mpr ⟨(hwf.nodes hfirst.2.2).1, hfirst.1⟩),
      mem_flatten_groupWaves.mpr ((hmem v).mpr ⟨(hwf.nodes hlast.2.2).2, hlast.2.1⟩),
      fun i j wave wave' hi hj hu hv => lt_of_depends htight hi hj hu hv hpath⟩

end Dag

/-! ## Samples -/

namespace Sample

/-- Job `c` depends on `b`, and `b` on `a`. -/
def detour : Dag := (Dag.new.addEdge (jobId "a") (jobId "b")).addEdge (jobId "b") (jobId "c")

end Sample

theorem sorts_byAge {g : DiGraph} (h : ∀ i j, (i, j) ∈ g.edges → i < j) : Sample.byAge.Sorts g := by
  have hup : ∀ {i j}, TransGen (fun i j => (i, j) ∈ g.edges) i j → i < j := by
    intro i j hpath
    induction hpath with
    | single hmem => exact h _ _ hmem
    | tail _ hmem ih => exact ih.trans (h _ _ hmem)
  refine ⟨iff_of_true ⟨_, rfl⟩ fun i hpath => lt_irrefl i (hup hpath), fun order horder => ?_⟩
  obtain rfl := Except.ok.inj horder
  refine ⟨.refl _, List.pairwise_lt_range.imp fun hlt hmem => ?_⟩
  exact lt_asymm hlt (h _ _ hmem)

theorem built_detour : Sample.detour.Built := (Dag.Built.new.addEdge _ _).addEdge _ _

theorem sorts_detour : Sample.byAge.Sorts Sample.detour.graph := by
  apply sorts_byAge
  have hedges : Sample.detour.graph.edges = [(1, 2), (0, 1)] := by decide
  intro i j hmem
  rw [hedges] at hmem
  simp only [List.mem_cons, Prod.mk.injEq, List.not_mem_nil, or_false] at hmem
  rcases hmem with ⟨rfl, rfl⟩ | ⟨rfl, rfl⟩ <;> decide

namespace Dag

/-- A chain of three jobs has three waves. -/
theorem waves_longest_path_detour : LongestPathLayers Sample.detour (Wanted none)
    [[Sample.jobId "a"], [Sample.jobId "b"], [Sample.jobId "c"]] :=
  (waves_longest_path (fun _ => 0) built_detour sorts_detour none).2 _ (by decide +kernel)

theorem acyclic_detour : ¬ Sample.detour.Cyclic :=
  built_detour.wellFormed.acyclic_iff.mp (sorts_detour.ok_iff.mp ⟨_, rfl⟩)

/-- With the job in the middle left out, both ends of the chain are in the first wave. -/
theorem waves_ignore_detour :
    let affected : Finset JobId := {Sample.jobId "a", Sample.jobId "c"}
    Sample.byAge.Sorts Sample.detour.graph ∧ ¬ Sample.detour.Cyclic ∧
    TransGen Sample.detour.Edge (Sample.jobId "a") (Sample.jobId "c") ∧
    Sample.detour.waves Sample.byAge (fun _ => 0) (some affected) =
      .ok [[Sample.jobId "a", Sample.jobId "c"]] := by
  intro affected
  have hab : Sample.detour.Edge (Sample.jobId "a") (Sample.jobId "b") := by
    show _ ∈ _
    decide
  have hbc : Sample.detour.Edge (Sample.jobId "b") (Sample.jobId "c") := by
    show _ ∈ _
    decide
  exact ⟨sorts_detour, acyclic_detour, .tail (.single hab) hbc, by decide +kernel⟩

/-- Of the last two jobs, the one that depends on the other is later. -/
theorem waves_respect_affected_detour :
    ∃ ws, Sample.detour.waves Sample.byAge (fun _ => 0)
        (some {Sample.jobId "b", Sample.jobId "c"}) = .ok ws ∧
      ∀ (i j : Nat) wave wave', ws[i]? = some wave → ws[j]? = some wave' →
        Sample.jobId "b" ∈ wave → Sample.jobId "c" ∈ wave' → i < j := by
  obtain ⟨ws, hok, hlater⟩ := waves_respect_affected (fun _ => 0) built_detour sorts_detour
    acyclic_detour {Sample.jobId "b", Sample.jobId "c"}
  refine ⟨ws, hok, (hlater _ _ (.single ⟨by decide, by decide, ?_⟩)).2.2⟩
  show _ ∈ _
  decide

end Dag

end Shigoto
