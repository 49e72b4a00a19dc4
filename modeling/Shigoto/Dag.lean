import Shigoto.Types
import Mathlib.Data.List.Sort
import Mathlib.Data.Finset.Insert

/-!
# The typed dependency graph

`Dag` over a petgraph `DiGraph`. Of petgraph, `add_node`, `add_edge`, `contains_edge` and
`neighbors_directed` are modelled as documented: node indices count up from zero, and the
neighbours of a node are listed from the newest edge to the oldest. Its `toposort` is a parameter,
and so is the iteration order of a hash map (`rank`).

A node keeps the spelling of the call that interned it; later calls with an equal id do not change it. The
spelling shows in the order within a wave.
-/

namespace Shigoto

/-! ## petgraph -/

abbrev NodeIndex := Nat

/-- `petgraph::graph::DiGraph<JobId, ()>`: node weights by index, edges newest first. -/
structure DiGraph where
  nodes : List (JobId PathBuf)
  edges : List (NodeIndex × NodeIndex)
  deriving DecidableEq, Repr

namespace DiGraph

def empty : DiGraph := ⟨[], []⟩

/-- The node weights as `==` sees them. -/
def ids (g : DiGraph) : List JobId := g.nodes.map JobId.key

@[simp] theorem length_ids (g : DiGraph) : g.ids.length = g.nodes.length := List.length_map _

def addNode (g : DiGraph) (id : JobId PathBuf) : NodeIndex × DiGraph :=
  (g.nodes.length, { g with nodes := g.nodes ++ [id] })

def addEdge (g : DiGraph) (source target : NodeIndex) : DiGraph :=
  { g with edges := (source, target) :: g.edges }

def containsEdge (g : DiGraph) (source target : NodeIndex) : Bool :=
  (source, target) ∈ g.edges

/-- `neighbors_directed(i, Direction::Incoming)`. -/
def neighborsIncoming (g : DiGraph) (i : NodeIndex) : List NodeIndex :=
  (g.edges.filter fun e => e.2 = i).map Prod.fst

end DiGraph

/-- `petgraph::algo::toposort`: an order of the nodes, or a node on a cycle. -/
abbrev Toposort := DiGraph → Except NodeIndex (List NodeIndex)

/-! ## The graph of jobs -/

inductive DagError
  | cycle (id : JobId)
  | danglingEdge (id : JobId)
  deriving DecidableEq, Repr

structure Dag where
  graph : DiGraph
  index : Map JobId NodeIndex
  /-- Jobs the caller declared, as opposed to nodes that exist because an edge mentioned them. -/
  declared : Finset JobId

namespace Dag

def new : Dag := ⟨.empty, ∅, ∅⟩

/-- Intern a node without declaring it. -/
def nodeIndex (dag : Dag) (id : JobId PathBuf) : NodeIndex × Dag :=
  match dag.index.get? id.key with
  | some idx => (idx, dag)
  | none =>
    let (idx, graph) := dag.graph.addNode id
    (idx, { dag with graph := graph, index := dag.index.insert id.key idx })

/-- Add a node if absent and declare it. -/
def ensureNode (dag : Dag) (id : JobId PathBuf) : Dag :=
  let (_, dag) := dag.nodeIndex id
  { dag with declared := insert id.key dag.declared }

/-- Add an edge; adding it again does nothing. -/
def addEdge (dag : Dag) (source target : JobId PathBuf) : Dag :=
  let (f, dag) := dag.nodeIndex source
  let (t, dag) := dag.nodeIndex target
  if dag.graph.containsEdge f t then dag
  else { dag with graph := dag.graph.addEdge f t }

/-- The job ids of the nodes with an edge into `idx`. -/
def parentsAt (dag : Dag) (idx : NodeIndex) : List JobId :=
  (dag.graph.neighborsIncoming idx).filterMap fun p => dag.graph.ids[p]?

/-- Direct predecessors of `id`; empty when `id` is not in the graph. -/
def predecessors (dag : Dag) (id : JobId) : List JobId :=
  match dag.index.get? id with
  | none => []
  | some idx => dag.parentsAt idx

/-- Total number of distinct nodes. -/
def nodeCount (dag : Dag) : Nat := dag.graph.nodes.length

/-- Total number of directed edges. -/
def edgeCount (dag : Dag) : Nat := dag.graph.edges.length

/-- Topologically sort the whole graph. -/
def toposort (sort : Toposort) (dag : Dag) : Except DagError (List JobId) :=
  match sort dag.graph with
  | .ok order => .ok (order.filterMap fun i => dag.graph.ids[i]?)
  | .error i => .error (.cycle ((dag.graph.ids[i]?).getD ⟨.global, ⟨""⟩, .none⟩))

/-- How a job of the graph is spelled. -/
def interned (dag : Dag) (id : JobId) : JobId PathBuf :=
  ((dag.index.get? id).bind fun idx => dag.graph.nodes[idx]?).getD id.plain

/-- Stable string projection of a job id, for the order within a wave. -/
def stableJobKey (id : JobId PathBuf) : String :=
  let scope := match id.scope with
    | .global => "global"
    | .workspace ws => "ws:" ++ ws
    | .repo workspace repo => "repo:" ++ workspace ++ "/" ++ repo
  let subject := match id.subject with
    | .none => ""
    | .repo r => "repo:" ++ r
    | .org o => "org:" ++ o
    | .path p => "path:" ++ p.display
    | .pinned s => "pin:" ++ s
  scope ++ "|" ++ id.kind.name ++ "|" ++ subject

/-- What a wave of the graph is sorted by. -/
def waveKey (dag : Dag) (id : JobId) : String := stableJobKey (dag.interned id)

/-- One step of the depth loop: a wanted parent that already has a wave pushes its child past it. -/
def deepen (want : JobId → Bool) (waveOf : Map JobId Nat) (depth : Nat) (pid : JobId) : Nat :=
  if want pid then
    match waveOf.get? pid with
    | some pd => max depth (pd + 1)
    | none => depth
  else depth

/-- The wave of every wanted node, along a topological order. -/
def assignWaves (dag : Dag) (want : JobId → Bool) :
    List JobId → Map JobId Nat → Map JobId Nat
  | [], waveOf => waveOf
  | id :: order, waveOf =>
    if want id then
      -- `self.index[id]`: every id of the order is a node of the graph
      let depth := (dag.predecessors id).foldl (deepen want waveOf) 0
      assignWaves dag want order (waveOf.insert id depth)
    else assignWaves dag want order waveOf

/-- Sort by key, keeping the order of equal keys. -/
def sortByKey (key : JobId → String) (ids : List JobId) : List JobId :=
  ids.insertionSort fun a b => key a ≤ key b

/-- Group the nodes by wave, each wave sorted by key. `rank` is the iteration order of `wave_of`. -/
def groupWaves (key : JobId → String) (rank : JobId → Nat) (waveOf : Map JobId Nat) : List (List JobId) :=
  let entries := waveOf.iterate rank
  let maxWave := (entries.map (·.2)).foldl max 0
  (List.range (maxWave + 1)).map fun depth =>
    sortByKey key ((entries.filter fun e => e.2 = depth).map (·.1))

/-- Partition the graph, or its `affected` part, into topological waves. -/
def waves (sort : Toposort) (rank : JobId → Nat) (dag : Dag) (affected : Option (Finset JobId)) :
    Except DagError (List (List JobId)) :=
  match dag.toposort sort with
  | .error e => .error e
  | .ok order =>
    let want := fun id => affected.all fun s => id ∈ s
    .ok (groupWaves dag.waveKey rank (dag.assignWaves want order ∅))

/-- Partitioning fails only where sorting does. -/
theorem waves_error {sort : Toposort} {rank : JobId → Nat} {dag : Dag}
    {affected : Option (Finset JobId)} {e : DagError}
    (h : dag.waves sort rank affected = .error e) : ∃ i, sort dag.graph = .error i := by
  unfold waves toposort at h
  cases hsort : sort dag.graph with
  | error i => exact ⟨i, rfl⟩
  | ok order => simp [hsort] at h

/-! ## No job is in two waves -/

theorem sortByKey_perm (key : JobId → String) (ids : List JobId) :
    (sortByKey key ids).Perm ids := List.perm_insertionSort _ ids

/-- The jobs of one wave are those with its number. -/
theorem mem_groupWaves {key : JobId → String} {rank : JobId → Nat} {waveOf : Map JobId Nat} {k : Nat}
    {wave : List JobId} (hwave : (groupWaves key rank waveOf)[k]? = some wave) (id : JobId) :
    id ∈ wave ↔ waveOf.get? id = some k := by
  unfold groupWaves at hwave
  rw [List.getElem?_map, Option.map_eq_some_iff] at hwave
  obtain ⟨depth, hdepth, rfl⟩ := hwave
  obtain ⟨hlt, heq⟩ := List.getElem?_eq_some_iff.mp hdepth
  obtain rfl : k = depth := (List.getElem_range hlt).symm.trans heq
  rw [(sortByKey_perm _ _).mem_iff, List.mem_map]
  constructor
  · rintro ⟨⟨id', d⟩, hin, rfl⟩
    obtain ⟨hit, hd⟩ := List.mem_filter.mp hin
    obtain rfl : d = k := by simpa using hd
    exact (Map.mem_iterate rank waveOf id' d).mp hit
  · intro hget
    exact ⟨(id, k),
      List.mem_filter.mpr ⟨(Map.mem_iterate rank waveOf id k).mpr hget, by simp⟩, rfl⟩

theorem groupWaves_nodup (key : JobId → String) (rank : JobId → Nat) (waveOf : Map JobId Nat) :
    (groupWaves key rank waveOf).flatten.Nodup := by
  refine List.nodup_flatten.mpr ⟨fun wave hwave => ?_, ?_⟩
  · obtain ⟨depth, -, rfl⟩ := List.mem_map.mp hwave
    apply (sortByKey_perm _ _).nodup_iff.mpr
    exact (List.filter_sublist.map _).nodup (Map.iterate_keys_nodup rank waveOf)
  · rw [List.pairwise_iff_getElem]
    intro i j hi hj hlt id hid hid'
    have hget := (mem_groupWaves (List.getElem?_eq_getElem hi) id).mp hid
    have hget' := (mem_groupWaves (List.getElem?_eq_getElem hj) id).mp hid'
    have := Option.some.inj (hget.symm.trans hget')
    omega

/-- Whatever the order of the sort and of the hash map, a job appears at most once in all waves. -/
theorem waves_nodup {sort : Toposort} {rank : JobId → Nat} {dag : Dag}
    {affected : Option (Finset JobId)} {ws : List (List JobId)}
    (h : dag.waves sort rank affected = .ok ws) : ws.flatten.Nodup := by
  unfold waves at h
  split at h
  · simp at h
  · obtain rfl := Except.ok.inj h
    exact groupWaves_nodup _ rank _

end Dag

/-! ## Sample graphs -/

namespace Sample

def jobId {P : Type} (name : String) : JobId P := ⟨.global, ⟨"build"⟩, .pinned name⟩

/-- A job about a file. -/
def file (path : String) : JobId PathBuf := ⟨.global, ⟨"build"⟩, .path ⟨Text.textBytes path⟩⟩

theorem key_jobId (name : String) : (jobId name : JobId PathBuf).key = jobId name := rfl

theorem eq_of_key_jobId {id : JobId PathBuf} {name : String} (h : id.key = jobId name) : id = jobId name :=
  JobId.eq_of_key (by simp [jobId]) h

/-- A sort for graphs whose edges lead from older nodes to newer ones. -/
def byAge : Toposort := fun g => .ok (List.range g.nodes.length)

/-- A graph with one job. -/
def single (name : String) : Dag := Dag.new.ensureNode (jobId name)

/-- Two jobs that do not depend on each other. -/
def pair : Dag := (Dag.new.ensureNode (jobId "a")).ensureNode (jobId "b")

/-- Job `b` depends on job `a`. -/
def chain : Dag := ((Dag.new.ensureNode (jobId "a")).ensureNode (jobId "b")).addEdge
  (jobId "a") (jobId "b")

end Sample

end Shigoto
