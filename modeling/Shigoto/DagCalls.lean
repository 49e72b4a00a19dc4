import Shigoto.Waves

/-!
# Graphs by the calls that build them

A graph is built by a sequence of `ensure_node` and `add_edge` calls, and what it is, up to the numbers
of its nodes and their spelling, does not depend on their order: a job is a node when some call mentions it
(`hasNode_ofCalls`), an edge is there when some call adds it (`edge_ofCalls`), and a job is declared
when some call ensures it (`declared_ofCalls`).

Calls that spell their jobs in another way build the same graph with its nodes spelled that way
(`ofCalls_respell`).
-/

namespace Shigoto

open Relation

/-- A call that builds a graph, with its jobs as they are spelled. -/
inductive DagCall
  | ensureNode (id : JobId PathBuf)
  | addEdge (source target : JobId PathBuf)
  deriving DecidableEq, Repr

namespace DagCall

def spelled : DagCall → List (JobId PathBuf)
  | .ensureNode id => [id]
  | .addEdge source target => [source, target]

/-- The jobs that a call mentions. -/
def ids (call : DagCall) : List JobId := call.spelled.map JobId.key

/-- The call adds this edge. -/
def Adds (u v : JobId) : DagCall → Prop
  | .ensureNode _ => False
  | .addEdge source target => source.key = u ∧ target.key = v

/-- The call declares this job. -/
def Declares (id : JobId) : DagCall → Prop
  | .ensureNode spelled => spelled.key = id
  | .addEdge _ _ => False

instance (u v : JobId) (call : DagCall) : Decidable (call.Adds u v) := by
  cases call <;> unfold Adds <;> infer_instance

instance (id : JobId) (call : DagCall) : Decidable (call.Declares id) := by
  cases call <;> unfold Declares <;> infer_instance

/-- The same call with its jobs spelled in another way. -/
def respell (spelling : Spelling) : DagCall → DagCall
  | .ensureNode id => .ensureNode (spelling.of id.key)
  | .addEdge source target => .addEdge (spelling.of source.key) (spelling.of target.key)

theorem ids_respell (spelling : Spelling) (call : DagCall) : (call.respell spelling).ids = call.ids := by
  cases call <;> simp [respell, ids, spelled, spelling.key_of]

theorem adds_respell (spelling : Spelling) {u v : JobId} {call : DagCall} :
    (call.respell spelling).Adds u v ↔ call.Adds u v := by
  cases call <;> simp [respell, Adds, spelling.key_of]

theorem declares_respell (spelling : Spelling) {id : JobId} {call : DagCall} :
    (call.respell spelling).Declares id ↔ call.Declares id := by
  cases call <;> simp [respell, Declares, spelling.key_of]

end DagCall

/-- Some call mentions the job. -/
def Mentions (calls : List DagCall) (id : JobId) : Prop := ∃ call ∈ calls, id ∈ call.ids

/-- Some call adds the edge. -/
def AddsEdge (calls : List DagCall) (u v : JobId) : Prop := ∃ call ∈ calls, call.Adds u v

/-- Some call declares the job. -/
def Declares (calls : List DagCall) (id : JobId) : Prop := ∃ call ∈ calls, call.Declares id

/-- The same jobs and the same edges, in any order, with any repetition and however they are spelled. -/
structure SameGraph (calls calls' : List DagCall) : Prop where
  jobs : ∀ id, Mentions calls id ↔ Mentions calls' id
  edges : ∀ u v, AddsEdge calls u v ↔ AddsEdge calls' u v

theorem SameGraph.refl (calls : List DagCall) : SameGraph calls calls :=
  ⟨fun _ => Iff.rfl, fun _ _ => Iff.rfl⟩

theorem SameGraph.symm {calls calls' : List DagCall} (h : SameGraph calls calls') : SameGraph calls' calls :=
  ⟨fun id => (h.jobs id).symm, fun u v => (h.edges u v).symm⟩

theorem SameGraph.respell (calls : List DagCall) (spelling : Spelling) :
    SameGraph calls (calls.map (DagCall.respell spelling)) := by
  constructor
  · simp [Mentions, DagCall.ids_respell]
  · simp [AddsEdge, DagCall.adds_respell]

namespace Dag

variable {calls calls' : List DagCall} {id u v : JobId}

def apply (dag : Dag) : DagCall → Dag
  | .ensureNode id => dag.ensureNode id
  | .addEdge source target => dag.addEdge source target

/-- The graph that the calls build. -/
def ofCalls (calls : List DagCall) : Dag := calls.foldl apply .new

theorem ofCalls_append (calls : List DagCall) (call : DagCall) :
    ofCalls (calls ++ [call]) = (ofCalls calls).apply call := by
  rw [ofCalls, List.foldl_append]
  rfl

theorem built_ofCalls (calls : List DagCall) : (ofCalls calls).Built := by
  induction calls using List.reverseRecOn with
  | nil => exact .new
  | append_singleton calls call ih =>
    rw [ofCalls_append]
    cases call with
    | ensureNode id => exact ih.ensureNode id
    | addEdge source target => exact ih.addEdge source target

/-- One more call: its jobs become nodes, and its edge is added. -/
theorem Built.apply {dag : Dag} (h : dag.Built) (call : DagCall) :
    (∀ v, (dag.apply call).HasNode v ↔ dag.HasNode v ∨ v ∈ call.ids) ∧
      ∀ u v, (dag.apply call).Edge u v ↔ dag.Edge u v ∨ call.Adds u v := by
  cases call with
  | ensureNode id =>
    obtain ⟨-, hnodes, hedges⟩ := h.wellFormed.ensureNode id
    refine ⟨fun v => ?_, fun u v => ?_⟩
    · simpa [Dag.apply, DagCall.ids, DagCall.spelled] using hnodes v
    · simpa [Dag.apply, DagCall.Adds] using hedges u v
  | addEdge source target =>
    obtain ⟨-, hnodes, hedges⟩ := h.wellFormed.addEdge source target
    refine ⟨fun v => ?_, fun u v => ?_⟩
    · simpa [Dag.apply, DagCall.ids, DagCall.spelled] using hnodes v
    · rw [DagCall.Adds, eq_comm (a := source.key), eq_comm (a := target.key)]
      exact hedges u v

theorem hasNode_ofCalls : (ofCalls calls).HasNode id ↔ Mentions calls id := by
  induction calls using List.reverseRecOn with
  | nil => simp [ofCalls, HasNode, Mentions, Dag.new]
  | append_singleton calls call ih =>
    rw [ofCalls_append, ((built_ofCalls calls).apply call).1, ih]
    simp only [Mentions, List.mem_append, List.mem_singleton]
    grind

theorem edge_ofCalls : (ofCalls calls).Edge u v ↔ AddsEdge calls u v := by
  induction calls using List.reverseRecOn with
  | nil => simp [ofCalls, Edge, predecessors, AddsEdge, Dag.new]
  | append_singleton calls call ih =>
    rw [ofCalls_append, ((built_ofCalls calls).apply call).2, ih]
    simp only [AddsEdge, List.mem_append, List.mem_singleton]
    grind

theorem nodeIndex_declared (dag : Dag) (spelled : JobId PathBuf) :
    (dag.nodeIndex spelled).2.declared = dag.declared := by
  unfold nodeIndex
  split <;> rfl

/-- Only ensuring a node declares it. -/
theorem mem_declared_apply (dag : Dag) (call : DagCall) :
    id ∈ (dag.apply call).declared ↔ id ∈ dag.declared ∨ call.Declares id := by
  cases call with
  | ensureNode spelled =>
    have hdeclared : (dag.ensureNode spelled).declared = insert spelled.key dag.declared := by
      rw [← nodeIndex_declared dag spelled]
      rfl
    rw [apply, hdeclared, Finset.mem_insert, DagCall.Declares]
    grind
  | addEdge source target =>
    have hdeclared : (dag.addEdge source target).declared = dag.declared := by
      rw [← nodeIndex_declared dag source, ← nodeIndex_declared (dag.nodeIndex source).2 target]
      simp only [addEdge]
      split <;> rfl
    rw [apply, hdeclared, DagCall.Declares, or_false]

theorem declared_ofCalls : id ∈ (ofCalls calls).declared ↔ Declares calls id := by
  induction calls using List.reverseRecOn with
  | nil => simp [ofCalls, Declares, Dag.new]
  | append_singleton calls call ih =>
    rw [ofCalls_append, mem_declared_apply, ih]
    simp only [Declares, List.mem_append, List.mem_singleton]
    grind

/-- Two sequences for the same graph have the same cycles. -/
theorem cyclic_ofCalls_congr (h : SameGraph calls calls') :
    (ofCalls calls).Cyclic ↔ (ofCalls calls').Cyclic := by
  have hedge : (ofCalls calls).Edge = (ofCalls calls').Edge := by
    funext u v
    rw [edge_ofCalls, edge_ofCalls, h.edges]
  rw [Cyclic, Cyclic, hedge]

/-! ## Jobs spelled in another way -/

/-- The same graph with its nodes spelled in another way. -/
def respell (spelling : Spelling) (dag : Dag) : Dag :=
  { dag with graph := { dag.graph with nodes := dag.graph.nodes.map fun node => spelling.of node.key } }

theorem nodeIndex_respell (spelling : Spelling) (dag : Dag) (spelled : JobId PathBuf) :
    (dag.respell spelling).nodeIndex (spelling.of spelled.key) =
      ((dag.nodeIndex spelled).1, (dag.nodeIndex spelled).2.respell spelling) := by
  have hindex : (dag.respell spelling).index = dag.index := rfl
  cases hget : dag.index.get? spelled.key with
  | some idx =>
    have hget' : (dag.respell spelling).index.get? (spelling.of spelled.key).key = some idx := by
      rw [spelling.key_of, hindex, hget]
    rw [nodeIndex_of_some hget', nodeIndex_of_some hget]
  | none =>
    have hget' : (dag.respell spelling).index.get? (spelling.of spelled.key).key = none := by
      rw [spelling.key_of, hindex, hget]
    rw [nodeIndex_of_none hget', nodeIndex_of_none hget]
    simp [respell, spelling.key_of]

theorem apply_respell (spelling : Spelling) (dag : Dag) (call : DagCall) :
    (dag.respell spelling).apply (call.respell spelling) = (dag.apply call).respell spelling := by
  cases call with
  | ensureNode spelled =>
    simp only [apply, DagCall.respell, ensureNode, nodeIndex_respell, spelling.key_of]
    rfl
  | addEdge source target =>
    simp only [apply, DagCall.respell, addEdge, nodeIndex_respell]
    rw [apply_ite (respell spelling)]
    rfl

theorem ofCalls_respell (spelling : Spelling) (calls : List DagCall) :
    ofCalls (calls.map (DagCall.respell spelling)) = (ofCalls calls).respell spelling := by
  induction calls using List.reverseRecOn with
  | nil => rfl
  | append_singleton calls call ih =>
    rw [List.map_append, List.map_singleton, ofCalls_append, ofCalls_append, ih, apply_respell]

/-- A node is spelled as some spelling of its job. -/
theorem WellFormed.key_interned {dag : Dag} (h : dag.WellFormed) (id : JobId) : (dag.interned id).key = id := by
  unfold interned
  cases hget : dag.index.get? id with
  | none => exact id.key_plain
  | some i =>
    have hkey := (h.indexed id i).mp hget
    rw [DiGraph.ids, List.getElem?_map, Option.map_eq_some_iff] at hkey
    obtain ⟨node, hnode, hkey⟩ := hkey
    rw [Option.bind_some, hnode]
    exact hkey

/-- **Calls that spell a job in another way** spell its node that way. -/
theorem interned_respell (spelling : Spelling) (h : Mentions calls id) :
    (ofCalls (calls.map (DagCall.respell spelling))).interned id = spelling.of id := by
  obtain ⟨i, hi⟩ := Option.isSome_iff_exists.mp (hasNode_ofCalls.mpr h)
  have hkey := ((built_ofCalls calls).wellFormed.indexed id i).mp hi
  rw [DiGraph.ids, List.getElem?_map, Option.map_eq_some_iff] at hkey
  obtain ⟨node, hnode, rfl⟩ := hkey
  have hspelled : ((ofCalls calls).respell spelling).graph.nodes[i]? = some (spelling.of node.key) := by
    rw [respell, List.getElem?_map, hnode]
    rfl
  rw [ofCalls_respell, interned, show ((ofCalls calls).respell spelling).index.get? node.key = some i from hi,
    Option.bind_some, hspelled]
  rfl

/-- A sort looks at the edges alone, so it sorts the graph however it is spelled. -/
theorem sorts_respell {sort : Toposort} (spelling : Spelling) (h : sort.Sorts (ofCalls calls).graph) :
    Toposort.Sorts (fun _ => sort (ofCalls calls).graph)
      (ofCalls (calls.map (DagCall.respell spelling))).graph := by
  rw [ofCalls_respell]
  refine ⟨h.ok_iff, fun order horder => ⟨?_, (h.sorted order horder).parents⟩⟩
  rw [respell, List.length_map]
  exact (h.sorted order horder).perm

end Dag

end Shigoto
