import Mathlib.Data.Finset.Card
import Mathlib.Data.Finset.Prod
import Shigoto.DagCalls

/-!
# A graph is a set of jobs and a set of edges

`DagSets` is what the calls are for: a set of jobs, the declared ones among them, and a set of edges. The
graph of the code keeps them in a petgraph, an index and a hash set. Each call keeps the two in step
(`Represents.apply`), so every view of the graph is one of the sets (`refines_ofCalls`).
-/

namespace Shigoto

/-- The abstract graph. -/
structure DagSets where
  jobs : Finset JobId
  declared : Finset JobId
  edges : Finset (JobId × JobId)

def DagSets.apply (s : DagSets) : DagCall → DagSets
  | .ensureNode id => { s with jobs := insert id.key s.jobs, declared := insert id.key s.declared }
  | .addEdge source target =>
    { s with
      jobs := insert source.key (insert target.key s.jobs)
      edges := insert (source.key, target.key) s.edges }

def DagSets.ofCalls (calls : List DagCall) : DagSets := calls.foldl DagSets.apply ⟨∅, ∅, ∅⟩

namespace Dag

variable {dag : Dag} {s : DagSets} {id u v : JobId}

/-- The graph stands for the sets, and has no edge twice. -/
structure Represents (dag : Dag) (s : DagSets) : Prop where
  wellFormed : dag.WellFormed
  jobs : ∀ id, dag.HasNode id ↔ id ∈ s.jobs
  declared : dag.declared = s.declared
  among : s.declared ⊆ s.jobs
  edges : ∀ u v, dag.Edge u v ↔ (u, v) ∈ s.edges
  once : dag.graph.edges.Nodup

/-! ## The calls keep the two in step -/

theorem nodeIndex_edges (dag : Dag) (spelled : JobId PathBuf) :
    (dag.nodeIndex spelled).2.graph.edges = dag.graph.edges := by
  unfold nodeIndex
  split <;> rfl

/-- An edge is added only where there is none. -/
theorem nodup_edges_apply (h : dag.graph.edges.Nodup) (call : DagCall) :
    (dag.apply call).graph.edges.Nodup := by
  cases call with
  | ensureNode id =>
    have hedges : (dag.ensureNode id).graph.edges = dag.graph.edges := nodeIndex_edges dag id
    rw [apply, hedges]
    exact h
  | addEdge source target =>
    have hinterned : ((dag.nodeIndex source).2.nodeIndex target).2.graph.edges = dag.graph.edges := by
      rw [nodeIndex_edges, nodeIndex_edges]
    simp only [apply, addEdge]
    split
    · rw [hinterned]
      exact h
    · next hnew =>
      rw [DiGraph.addEdge, List.nodup_cons, hinterned]
      refine ⟨fun hmem => hnew ?_, h⟩
      rw [DiGraph.containsEdge, hinterned]
      exact decide_eq_true hmem

theorem Represents.apply (h : dag.Represents s) (call : DagCall) :
    (dag.apply call).Represents (s.apply call) := by
  have honce := nodup_edges_apply h.once call
  cases call with
  | ensureNode id =>
    obtain ⟨hwf, hnodes, hedges⟩ := h.wellFormed.ensureNode id
    refine ⟨hwf, fun v => ?_, ?_, ?_, fun u v => ?_, honce⟩
    · rw [DagSets.apply, Finset.mem_insert, ← h.jobs, or_comm]
      exact hnodes v
    · ext v
      rw [mem_declared_apply, DagSets.apply, Finset.mem_insert, h.declared, DagCall.Declares, or_comm, eq_comm]
    · exact Finset.insert_subset_insert id.key h.among
    · exact (hedges u v).trans (h.edges u v)
  | addEdge source target =>
    obtain ⟨hwf, hnodes, hedges⟩ := h.wellFormed.addEdge source target
    refine ⟨hwf, fun v => ?_, ?_, ?_, fun u v => ?_, honce⟩
    · rw [DagSets.apply, Finset.mem_insert, Finset.mem_insert, ← h.jobs]
      exact (hnodes v).trans (by tauto)
    · ext v
      rw [mem_declared_apply, h.declared, DagCall.Declares, or_false, DagSets.apply]
    · exact h.among.trans ((Finset.subset_insert _ _).trans (Finset.subset_insert _ _))
    · rw [DagSets.apply, Finset.mem_insert, ← h.edges, Prod.mk.injEq]
      exact (hedges u v).trans or_comm

theorem represents_ofCalls (calls : List DagCall) : (ofCalls calls).Represents (.ofCalls calls) := by
  have hnew : Dag.new.Represents ⟨∅, ∅, ∅⟩ :=
    ⟨Built.new.wellFormed, by simp [HasNode, Dag.new], rfl, Finset.Subset.refl _,
      by simp [Edge, predecessors, Dag.new], List.nodup_nil⟩
  have hrun : ∀ dag s, dag.Represents s →
      (calls.foldl Dag.apply dag).Represents (calls.foldl DagSets.apply s) := by
    induction calls with
    | nil => exact fun _ _ h => h
    | cons call calls ih => exact fun dag s h => ih _ _ (h.apply call)
  exact hrun _ _ hnew

/-! ## The views of the graph -/

/-- Two indices of one node are one. -/
theorem WellFormed.index_inj (h : dag.WellFormed) {i : NodeIndex} (hu : dag.index.get? u = some i)
    (hv : dag.index.get? v = some i) : u = v :=
  Option.some.inj (((h.indexed u i).mp hu).symm.trans ((h.indexed v i).mp hv))

theorem WellFormed.weight_inj (h : dag.WellFormed) {i j : NodeIndex}
    (hi : dag.graph.ids[i]? = some id) (hj : dag.graph.ids[j]? = some id) : i = j :=
  Option.some.inj (((h.indexed id i).mpr hi).symm.trans ((h.indexed id j).mpr hj))

/-- An index below the number of nodes is that of some job. -/
theorem WellFormed.exists_of_lt (h : dag.WellFormed) {i : NodeIndex} (hlt : i < dag.graph.nodes.length) :
    ∃ u, dag.index.get? u = some i := by
  rw [← DiGraph.length_ids] at hlt
  exact ⟨_, (h.indexed _ i).mpr (List.getElem?_eq_getElem hlt)⟩

theorem Represents.mem_edges_iff (h : dag.Represents s) {i j : NodeIndex} :
    (i, j) ∈ dag.graph.edges ↔
      ∃ u v, (u, v) ∈ s.edges ∧ dag.index.get? u = some i ∧ dag.index.get? v = some j := by
  constructor
  · intro hmem
    obtain ⟨hi, hj⟩ := h.wellFormed.bounded i j hmem
    obtain ⟨u, hu⟩ := h.wellFormed.exists_of_lt hi
    obtain ⟨v, hv⟩ := h.wellFormed.exists_of_lt hj
    exact ⟨u, v, (h.edges u v).mp (h.wellFormed.edge_iff.mpr ⟨i, j, hu, hv, hmem⟩), hu, hv⟩
  · rintro ⟨u, v, hedge, hu, hv⟩
    obtain ⟨i', j', hu', hv', hmem⟩ := h.wellFormed.edge_iff.mp ((h.edges u v).mpr hedge)
    rwa [Option.some.inj (hu.symm.trans hu'), Option.some.inj (hv.symm.trans hv')]

theorem Represents.nodeCount_eq (h : dag.Represents s) : dag.nodeCount = s.jobs.card := by
  have hjobs : dag.graph.ids.toFinset = s.jobs := by
    ext id
    rw [List.mem_toFinset, ← h.jobs, HasNode, Option.isSome_iff_exists, List.mem_iff_getElem?]
    exact exists_congr fun i => (h.wellFormed.indexed id i).symm
  rw [nodeCount, ← hjobs, List.toFinset_card_of_nodup h.wellFormed.ids_nodup, DiGraph.length_ids]

/-- The two indices of an edge. -/
def indices (dag : Dag) (e : JobId × JobId) : NodeIndex × NodeIndex :=
  ((dag.index.get? e.1).getD 0, (dag.index.get? e.2).getD 0)

theorem Represents.edgeCount_eq (h : dag.Represents s) : dag.edgeCount = s.edges.card := by
  have hends : ∀ e ∈ s.edges, dag.index.get? e.1 = some (dag.indices e).1 ∧
      dag.index.get? e.2 = some (dag.indices e).2 := fun e he => by
    obtain ⟨i, j, hi, hj, -⟩ := h.wellFormed.edge_iff.mp ((h.edges e.1 e.2).mpr he)
    simp [indices, hi, hj]
  have hedges : dag.graph.edges.toFinset = s.edges.image dag.indices := by
    ext ⟨i, j⟩
    rw [List.mem_toFinset, h.mem_edges_iff, Finset.mem_image]
    constructor
    · rintro ⟨u, v, hedge, hu, hv⟩
      exact ⟨(u, v), hedge, by simp [indices, hu, hv]⟩
    · rintro ⟨e, hedge, heq⟩
      obtain ⟨hu, hv⟩ := hends e hedge
      rw [heq] at hu hv
      exact ⟨e.1, e.2, hedge, hu, hv⟩
  have hinj : Set.InjOn dag.indices s.edges := by
    intro e he e' he' heq
    obtain ⟨hu, hv⟩ := hends e he
    obtain ⟨hu', hv'⟩ := hends e' he'
    rw [heq] at hu hv
    exact Prod.ext (h.wellFormed.index_inj hu hu') (h.wellFormed.index_inj hv hv')
  rw [edgeCount, ← List.toFinset_card_of_nodup h.once, hedges, Finset.card_image_of_injOn hinj]

theorem Represents.predecessors_nodup (h : dag.Represents s) (v : JobId) :
    (dag.predecessors v).Nodup := by
  unfold predecessors
  split
  · exact List.nodup_nil
  · next j _ =>
    have hsources : (dag.graph.neighborsIncoming j).Nodup := by
      refine (h.once.filter _).map_on fun e he e' he' heq => Prod.ext heq ?_
      have htarget : e.2 = j := by simpa using (List.mem_filter.mp he).2
      have htarget' : e'.2 = j := by simpa using (List.mem_filter.mp he').2
      rw [htarget, htarget']
    exact hsources.filterMap fun i i' id hi hi' => h.wellFormed.weight_inj hi hi'

/-- What the graph shows of the sets. -/
structure Refines (dag : Dag) (s : DagSets) : Prop where
  jobs : ∀ id, (dag.index.get? id).isSome = true ↔ id ∈ s.jobs
  /-- The index and the node weights are inverse to each other. -/
  indexed : ∀ id i, dag.index.get? id = some i ↔ dag.graph.ids[i]? = some id
  declared : dag.declared = s.declared
  declared_indexed : ∀ id ∈ dag.declared, (dag.index.get? id).isSome = true
  edges : ∀ i j, (i, j) ∈ dag.graph.edges ↔
    ∃ u v, (u, v) ∈ s.edges ∧ dag.index.get? u = some i ∧ dag.index.get? v = some j
  once : dag.graph.edges.Nodup
  nodeCount : dag.nodeCount = s.jobs.card
  edgeCount : dag.edgeCount = s.edges.card
  predecessors : ∀ u v, u ∈ dag.predecessors v ↔ (u, v) ∈ s.edges
  predecessors_once : ∀ v, (dag.predecessors v).Nodup
  predecessors_unknown : ∀ v, v ∉ s.jobs → dag.predecessors v = []
  /-- `self.index[id]` in `waves` does not panic. -/
  lookup : ∀ sort ids, dag.toposort sort = .ok ids → ∀ id ∈ ids, (dag.index.get? id).isSome = true

theorem Represents.refines (h : dag.Represents s) : dag.Refines s where
  jobs := h.jobs
  indexed := h.wellFormed.indexed
  declared := h.declared
  declared_indexed id hid := (h.jobs id).mpr (h.among (h.declared ▸ hid))
  edges _ _ := h.mem_edges_iff
  once := h.once
  nodeCount := h.nodeCount_eq
  edgeCount := h.edgeCount_eq
  predecessors := h.edges
  predecessors_once := h.predecessors_nodup
  predecessors_unknown v hv := by
    have hnone : dag.index.get? v = none := by
      rw [← Option.not_isSome_iff_eq_none]
      exact fun hsome => hv ((h.jobs v).mp hsome)
    simp only [Dag.predecessors, hnone]
  lookup sort ids hids id hid := by
    unfold toposort at hids
    split at hids
    · obtain rfl := Except.ok.inj hids
      obtain ⟨i, -, hi⟩ := List.mem_filterMap.mp hid
      exact Option.isSome_of_eq_some ((h.wellFormed.indexed id i).mpr hi)
    · cases hids

/-- **After any calls the graph is a set of jobs and a set of edges**: those that the calls mention. -/
theorem refines_ofCalls (calls : List DagCall) :
    (ofCalls calls).Refines (.ofCalls calls) ∧
    (∀ id, id ∈ (DagSets.ofCalls calls).jobs ↔ Mentions calls id) ∧
    (∀ id, id ∈ (DagSets.ofCalls calls).declared ↔ Declares calls id) ∧
    ∀ u v, (u, v) ∈ (DagSets.ofCalls calls).edges ↔ AddsEdge calls u v := by
  have h := represents_ofCalls calls
  refine ⟨h.refines, fun id => ?_, fun id => ?_, fun u v => ?_⟩
  · rw [← h.jobs, hasNode_ofCalls]
  · rw [← h.declared, declared_ofCalls]
  · rw [← h.edges, edge_ofCalls]

end Dag

end Shigoto
