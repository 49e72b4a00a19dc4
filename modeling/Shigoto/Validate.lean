import Shigoto.DagCalls
import Shigoto.Text.Debug
import Mathlib.Data.String.Basic

/-!
# Checking a graph before it is scheduled

`validate` reports the first endpoint that was never declared, in the order of the `{:?}` rendering of
jobs, and otherwise a cycle. The rendering tells spelled jobs apart (`debug_injective`), so the iteration order
of the hash map does not show. But a job is rendered as it was spelled when it was interned, so where jobs have
paths, the order of the calls can show: the report is a function of the graph exactly where one undeclared
endpoint is rendered before all others however they are spelled.
-/

namespace Shigoto

open Relation Sorting Text

variable {shown : Char → Bool}

/-! ## The rendering of a job -/

/-- `{:?}` of a tuple struct or variant with one field. -/
def debugTuple (name arg : String) : String := name ++ "(" ++ arg ++ ")"

/-- `{:?}` of a struct or variant with named fields. -/
def debugStruct (name : String) (fields : List (String × String)) : String :=
  name ++ " \x7b " ++ ", ".intercalate (fields.map fun field => field.1 ++ ": " ++ field.2) ++ " \x7d"

def JobScope.debug (shown : Char → Bool) : JobScope → String
  | .global => "Global"
  | .workspace name => debugTuple "Workspace" (debugStr shown name)
  | .repo ws name =>
    debugStruct "Repo" [("workspace", debugStr shown ws), ("repo", debugStr shown name)]

def JobKindId.debug (shown : Char → Bool) (kind : JobKindId) : String :=
  debugTuple "JobKindId" (debugStr shown kind.name)

def PathBuf.debug (shown : Char → Bool) (path : PathBuf) : String := debugBytes shown path.bytes

def JobSubject.debug (shown : Char → Bool) : JobSubject PathBuf → String
  | .none => "None"
  | .repo name => debugTuple "Repo" (debugStr shown name)
  | .org name => debugTuple "Org" (debugStr shown name)
  | .path p => debugTuple "Path" (p.debug shown)
  | .pinned name => debugTuple "Pinned" (debugStr shown name)

def JobId.debug (shown : Char → Bool) (id : JobId PathBuf) : String :=
  debugStruct "JobId" [("scope", id.scope.debug shown), ("kind", id.kind.debug shown),
    ("subject", id.subject.debug shown)]

/-! ## Validation -/

namespace Dag

/-- The nodes nobody declared, in the order of the hash map. -/
def undeclared (rank : JobId → Nat) (dag : Dag) : List JobId :=
  ((dag.index.iterate rank).map (·.1)).filter fun id => id ∉ dag.declared

/-- The rendering of a job of the graph. -/
def debugKey (shown : Char → Bool) (dag : Dag) (id : JobId) : String := (dag.interned id).debug shown

/-- Every edge endpoint must be a declared job, and the graph must be acyclic. -/
def validate (shown : Char → Bool) (sort : Toposort) (rank : JobId → Nat) (dag : Dag) :
    Except DagError Unit :=
  match sortByKey (dag.debugKey shown) (dag.undeclared rank) with
  | id :: _ => .error (.danglingEdge id)
  | [] =>
    match dag.toposort sort with
    | .error e => .error e
    | .ok _ => .ok ()

end Dag

namespace Sample

/-- A table of the characters that show, for texts in ASCII. -/
def printable (c : Char) : Bool := 32 ≤ c.toNat && c.toNat < 127

/-- A declared job, and edges to two jobs that nobody declared. -/
def typos : List DagCall :=
  [.ensureNode (jobId "deploy"), .addEdge (jobId "deploy") (jobId "tset"),
    .addEdge (jobId "deploy") (jobId "biuld")]

/-- Two declared jobs, and edges to files that nobody declares. One of the files is spelled in two ways. -/
def files : List DagCall :=
  [.ensureNode (jobId "lint"), .ensureNode (jobId "test"), .addEdge (jobId "lint") (file "z//a"),
    .addEdge (jobId "test") (file "z/a"), .addEdge (jobId "lint") (file "z/0")]

/-- The same calls, with the other spelling first. -/
def files' : List DagCall :=
  [.ensureNode (jobId "lint"), .ensureNode (jobId "test"), .addEdge (jobId "test") (file "z/a"),
    .addEdge (jobId "lint") (file "z//a"), .addEdge (jobId "lint") (file "z/0")]

end Sample

/-! ## The rendering tells jobs apart -/

theorem debugTuple_delimited (shown : Char → Bool) (ctor : String) :
    Delimited fun name => (debugTuple ctor (debugStr shown name)).toList := by
  have hname := ((debugStr_delimited shown).before ")".toList).after (ctor ++ "(").toList
  simpa [debugTuple] using hname

theorem JobScope.debug_delimited (shown : Char → Bool) :
    Delimited fun scope => (JobScope.debug shown scope).toList := by
  have hnames := (((debugStr_delimited shown).before ", repo: ".toList).pair
    (debugStr_delimited shown)).before " \x7d".toList
  intro a b s t heq
  cases a with
  | global =>
    cases b with
    | global => exact ⟨rfl, List.append_cancel_left heq⟩
    | _ => simp [JobScope.debug, debugTuple, debugStruct] at heq
  | workspace name =>
    cases b with
    | workspace name' =>
      obtain ⟨rfl, hst⟩ := debugTuple_delimited shown "Workspace" name name' s t heq
      exact ⟨rfl, hst⟩
    | _ => simp [JobScope.debug, debugTuple, debugStruct] at heq
  | repo ws name =>
    cases b with
    | repo ws' name' =>
      obtain ⟨hpair, hst⟩ := hnames (ws, name) (ws', name') s t
        (by simpa [JobScope.debug, debugStruct] using heq)
      obtain ⟨rfl, rfl⟩ := Prod.mk.inj hpair
      exact ⟨rfl, hst⟩
    | _ => simp [JobScope.debug, debugTuple, debugStruct] at heq

theorem JobKindId.debug_delimited (shown : Char → Bool) :
    Delimited fun kind => (JobKindId.debug shown kind).toList := by
  exact (debugTuple_delimited shown "JobKindId").comp (f := JobKindId.name)
    fun ⟨_⟩ ⟨_⟩ heq => congrArg _ heq

theorem JobSubject.debug_delimited (shown : Char → Bool) :
    Delimited fun subject => (JobSubject.debug shown subject).toList := by
  have hbytes := (debugBytes_delimited shown).before ")".toList
  intro a b s t heq
  cases a with
  | none =>
    cases b with
    | none => exact ⟨rfl, List.append_cancel_left heq⟩
    | _ => simp [JobSubject.debug, debugTuple] at heq
  | path p =>
    cases b with
    | path p' =>
      obtain ⟨hpath, hst⟩ := hbytes p.bytes p'.bytes s t
        (by simpa [JobSubject.debug, debugTuple, PathBuf.debug] using heq)
      obtain ⟨bytes⟩ := p
      obtain ⟨bytes'⟩ := p'
      obtain rfl : bytes = bytes' := hpath
      exact ⟨rfl, hst⟩
    | _ => simp [JobSubject.debug, debugTuple] at heq
  | repo name =>
    cases b with
    | repo name' =>
      obtain ⟨rfl, hst⟩ := debugTuple_delimited shown "Repo" name name' s t heq
      exact ⟨rfl, hst⟩
    | _ => simp [JobSubject.debug, debugTuple] at heq
  | org name =>
    cases b with
    | org name' =>
      obtain ⟨rfl, hst⟩ := debugTuple_delimited shown "Org" name name' s t heq
      exact ⟨rfl, hst⟩
    | _ => simp [JobSubject.debug, debugTuple] at heq
  | pinned name =>
    cases b with
    | pinned name' =>
      obtain ⟨rfl, hst⟩ := debugTuple_delimited shown "Pinned" name name' s t heq
      exact ⟨rfl, hst⟩
    | _ => simp [JobSubject.debug, debugTuple] at heq

/-- **The rendering tells spelled jobs apart.** -/
theorem JobId.debug_injective (shown : Char → Bool) : Function.Injective (JobId.debug shown) := by
  have hparts := ((((JobScope.debug_delimited shown).before ", kind: ".toList).pair
    ((JobKindId.debug_delimited shown).before ", subject: ".toList)).pair
    ((JobSubject.debug_delimited shown).before " \x7d".toList)).after "JobId \x7b scope: ".toList
  intro a b heq
  have htext : (a.debug shown).toList = (b.debug shown).toList := congrArg _ heq
  have hsame : ((a.scope, a.kind), a.subject) = ((b.scope, b.kind), b.subject) :=
    hparts.injective (by simpa [JobId.debug, debugStruct] using htext)
  grind [JobId]

/-! ## What validation reports -/

namespace Dag

variable {calls calls' : List DagCall} {sort sort' : Toposort} {rank rank' : JobId → Nat}

/-- The job is an endpoint of an edge that some call adds. -/
def Endpoint (calls : List DagCall) (id : JobId) : Prop := ∃ u v, AddsEdge calls u v ∧ (id = u ∨ id = v)

/-- An endpoint that no call declares. -/
def Dangling (calls : List DagCall) (id : JobId) : Prop := Endpoint calls id ∧ ¬ Declares calls id

/-- The same edges and the same declarations, in any order, with any repetition and in any spelling. -/
structure SameDeclared (calls calls' : List DagCall) : Prop where
  edges : ∀ u v, AddsEdge calls u v ↔ AddsEdge calls' u v
  declared : ∀ id, Declares calls id ↔ Declares calls' id

theorem SameDeclared.respell (calls : List DagCall) (spelling : Spelling) :
    SameDeclared calls (calls.map (DagCall.respell spelling)) := by
  constructor
  · simp [AddsEdge, DagCall.adds_respell]
  · simp [Declares, DagCall.declares_respell]

theorem SameDeclared.dangling (h : SameDeclared calls calls') (id : JobId) :
    Dangling calls id ↔ Dangling calls' id := by
  simp only [Dangling, Endpoint, h.edges, h.declared]

/-- What `validate` says of the graph that the calls build, when `sort` sorts it. -/
structure Validates (shown : Char → Bool) (sort : Toposort) (calls : List DagCall) : Prop where
  ok : ∀ rank, (ofCalls calls).validate shown sort rank = .ok () ↔
    (∀ id, Endpoint calls id → Declares calls id) ∧ ¬ ∃ id, TransGen (AddsEdge calls) id id
  dangling : ∀ rank, (∃ id, (ofCalls calls).validate shown sort rank = .error (.danglingEdge id)) ↔
    ∃ id, Dangling calls id
  undeclared : ∀ rank id, (ofCalls calls).validate shown sort rank = .error (.danglingEdge id) →
    Dangling calls id
  /-- The report is the same for every hash map and every sequence of calls that gives the same graph. -/
  reproducible : ∀ rank id, (ofCalls calls).validate shown sort rank = .error (.danglingEdge id) →
    ∀ calls' sort' rank', SameDeclared calls calls' →
      (ofCalls calls').validate shown sort' rank' = .error (.danglingEdge id)
  cycle : ∀ rank id, (ofCalls calls).validate shown sort rank = .error (.cycle id) →
    ∀ id, Endpoint calls id → Declares calls id

/-- Where an endpoint is undeclared, one such endpoint is rendered before all others, however they are
spelled. -/
def FirstSettled (shown : Char → Bool) (calls : List DagCall) : Prop :=
  (∃ id, Dangling calls id) → ∃ id, Dangling calls id ∧
    ∀ id', Dangling calls id' → id' ≠ id → id.Precedes (JobId.debug shown) id'

/-- A mentioned job is declared or an endpoint. -/
theorem mentions_iff {id : JobId} : Mentions calls id ↔ Declares calls id ∨ Endpoint calls id := by
  constructor
  · rintro ⟨call, hcall, hid⟩
    cases call with
    | ensureNode spelled =>
      obtain rfl : id = spelled.key := List.mem_singleton.mp hid
      exact .inl ⟨_, hcall, rfl⟩
    | addEdge source target =>
      refine .inr ⟨source.key, target.key, ⟨_, hcall, rfl, rfl⟩, ?_⟩
      simpa [DagCall.ids, DagCall.spelled] using hid
  · rintro (⟨call, hcall, hid⟩ | ⟨u, v, ⟨call, hcall, hadds⟩, hid⟩)
    · cases call with
      | ensureNode spelled => exact ⟨_, hcall, List.mem_singleton.mpr hid.symm⟩
      | addEdge source target => cases hid
    · cases call with
      | ensureNode spelled => cases hadds
      | addEdge source target =>
        obtain ⟨rfl, rfl⟩ := hadds
        exact ⟨_, hcall, by simpa [DagCall.ids, DagCall.spelled] using hid⟩

/-- The undeclared nodes are the undeclared endpoints. -/
theorem mem_undeclared {id : JobId} : id ∈ (ofCalls calls).undeclared rank ↔ Dangling calls id := by
  have hnode : id ∈ ((ofCalls calls).index.iterate rank).map (·.1) ↔ Mentions calls id := by
    rw [← hasNode_ofCalls, HasNode, Option.isSome_iff_exists, List.mem_map]
    constructor
    · rintro ⟨⟨id', i⟩, hmem, rfl⟩
      exact ⟨i, (Map.mem_iterate rank _ id' i).mp hmem⟩
    · rintro ⟨i, hi⟩
      exact ⟨(id, i), (Map.mem_iterate rank _ id i).mpr hi, rfl⟩
  rw [undeclared, List.mem_filter, hnode, mentions_iff, decide_eq_true_iff, declared_ofCalls, Dangling]
  tauto

/-- A graph with undeclared endpoints is reported by the first of them. -/
theorem validate_of_dangling (shown : Char → Bool) (sort : Toposort) (rank : JobId → Nat)
    (h : ∃ id, Dangling calls id) : ∃ id, Dangling calls id ∧
      (ofCalls calls).validate shown sort rank = .error (.danglingEdge id) ∧
      ∀ id', Dangling calls id' → (ofCalls calls).debugKey shown id ≤ (ofCalls calls).debugKey shown id' := by
  have hmem : ∀ {id}, id ∈ sortByKey ((ofCalls calls).debugKey shown) ((ofCalls calls).undeclared rank) ↔
      Dangling calls id := fun {id} => (sortByKey_perm _ _).mem_iff.trans mem_undeclared
  have hpairwise : (sortByKey ((ofCalls calls).debugKey shown) ((ofCalls calls).undeclared rank)).Pairwise
      fun a b => (ofCalls calls).debugKey shown a ≤ (ofCalls calls).debugKey shown b := pairwise_sortBy _
  cases hsorted : sortByKey ((ofCalls calls).debugKey shown) ((ofCalls calls).undeclared rank) with
  | nil =>
    obtain ⟨id, hid⟩ := h
    have hnone := hmem.mpr hid
    rw [hsorted] at hnone
    cases hnone
  | cons id rest =>
    refine ⟨id, hmem.mp (hsorted ▸ List.mem_cons_self), ?_, fun id' hid' => ?_⟩
    · rw [validate, hsorted]
    · rw [hsorted] at hpairwise
      rcases List.mem_cons.mp (hsorted ▸ hmem.mpr hid') with rfl | hrest
      · exact le_rfl
      · exact (List.pairwise_cons.mp hpairwise).1 id' hrest

/-- Without undeclared endpoints, the sort decides. -/
theorem validate_of_declared (h : ¬ ∃ id, Dangling calls id) :
    (ofCalls calls).validate shown sort rank =
      ((ofCalls calls).toposort sort).map fun _ => () := by
  have hnone : (ofCalls calls).undeclared rank = [] :=
    List.eq_nil_iff_forall_not_mem.mpr fun id hid => h ⟨id, mem_undeclared.mp hid⟩
  rw [validate, hnone]
  cases (ofCalls calls).toposort sort <;> rfl

theorem not_exists_dangling :
    (¬ ∃ id, Dangling calls id) ↔ ∀ id, Endpoint calls id → Declares calls id := by
  simp only [Dangling, not_exists, not_and, not_not]

/-- The cycles of the graph are those of the calls. -/
theorem cyclic_ofCalls : (ofCalls calls).Cyclic ↔ ∃ id, TransGen (AddsEdge calls) id id := by
  have hedge : (ofCalls calls).Edge = AddsEdge calls := by
    funext u v
    rw [edge_ofCalls]
  rw [Cyclic, hedge]

theorem toposort_ok_iff {dag : Dag} : (∃ order, dag.toposort sort = .ok order) ↔
    ∃ order, sort dag.graph = .ok order := by
  unfold toposort
  cases sort dag.graph <;> simp

/-- A sort that fails reports a cycle. -/
theorem toposort_error {dag : Dag} {e : DagError} (h : dag.toposort sort = .error e) :
    ∃ id, e = .cycle id := by
  unfold toposort at h
  cases hsort : sort dag.graph with
  | ok order => simp [hsort] at h
  | error i =>
    rw [hsort] at h
    exact ⟨_, (Except.error.inj h).symm⟩

/-! ## Which graphs are validated as they should be -/

/-- The sort is only asked where all endpoints are declared, and then it decides. -/
theorem validate_ok_iff (hsort : (∃ order, sort (ofCalls calls).graph = .ok order) ↔
    (ofCalls calls).graph.Acyclic) (shown : Char → Bool) (rank : JobId → Nat) :
    (ofCalls calls).validate shown sort rank = .ok () ↔
      (∀ id, Endpoint calls id → Declares calls id) ∧ ¬ ∃ id, TransGen (AddsEdge calls) id id := by
  have hacyclic : (∃ order, sort (ofCalls calls).graph = .ok order) ↔
      ¬ ∃ id, TransGen (AddsEdge calls) id id := by
    rw [hsort, (built_ofCalls calls).wellFormed.acyclic_iff, cyclic_ofCalls]
  rw [← not_exists_dangling, ← hacyclic, ← toposort_ok_iff]
  by_cases hdangling : ∃ id, Dangling calls id
  · obtain ⟨id, -, hreport, -⟩ := validate_of_dangling shown sort rank hdangling
    rw [hreport]
    exact iff_of_false (by simp) fun h => h.1 hdangling
  · rw [validate_of_declared hdangling]
    cases (ofCalls calls).toposort sort <;> simp [Except.map, hdangling]

/-- An undeclared endpoint is reported exactly where there is one. -/
theorem validate_dangling_iff (shown : Char → Bool) (sort : Toposort) (rank : JobId → Nat) :
    (∃ id, (ofCalls calls).validate shown sort rank = .error (.danglingEdge id)) ↔
      ∃ id, Dangling calls id := by
  refine ⟨fun ⟨id, hreport⟩ => ?_, fun h => ?_⟩
  · by_contra hnone
    rw [validate_of_declared hnone] at hreport
    cases hresult : (ofCalls calls).toposort sort with
    | ok order => simp [hresult, Except.map] at hreport
    | error e =>
      obtain ⟨id', rfl⟩ := toposort_error hresult
      simp [hresult, Except.map] at hreport
  · obtain ⟨id, -, hreport, -⟩ := validate_of_dangling shown sort rank h
    exact ⟨id, hreport⟩

/-- The reported endpoint is undeclared, and is rendered before the other ones as the calls spell them. -/
theorem least_of_validate {id : JobId}
    (h : (ofCalls calls).validate shown sort rank = .error (.danglingEdge id)) : Dangling calls id ∧
      ∀ id', Dangling calls id' → (ofCalls calls).debugKey shown id ≤ (ofCalls calls).debugKey shown id' := by
  obtain ⟨id', hdangling, hreport, hleast⟩ :=
    validate_of_dangling shown sort rank ((validate_dangling_iff shown sort rank).mp ⟨id, h⟩)
  obtain rfl : id' = id := by simpa using hreport.symm.trans h
  exact ⟨hdangling, hleast⟩

/-- A cycle is reported only where all endpoints are declared. -/
theorem declared_of_cycle {id : JobId} (h : (ofCalls calls).validate shown sort rank = .error (.cycle id)) :
    ∀ id, Endpoint calls id → Declares calls id := by
  refine not_exists_dangling.mp fun hdangling => ?_
  obtain ⟨id', -, hreport, -⟩ := validate_of_dangling shown sort rank hdangling
  simp [hreport] at h

/-- Where one endpoint is settled to come first, it is the one that is reported, for all calls that give the
same graph. -/
theorem reproducible_of_settled (hfirst : FirstSettled shown calls) {id : JobId}
    (h : (ofCalls calls).validate shown sort rank = .error (.danglingEdge id))
    (hsame : SameDeclared calls calls') :
    (ofCalls calls').validate shown sort' rank' = .error (.danglingEdge id) := by
  obtain ⟨first, hdangling, hbefore⟩ := hfirst ⟨id, (least_of_validate h).1⟩
  have hreports : ∀ {calls' sort rank}, SameDeclared calls calls' →
      (ofCalls calls').validate shown sort rank = .error (.danglingEdge first) := by
    intro calls' sort rank hsame
    obtain ⟨id', hdangling', hreport, hleast⟩ :=
      validate_of_dangling shown sort rank ⟨first, (hsame.dangling first).mp hdangling⟩
    obtain rfl : id' = first := by
      by_contra hne
      have hwf := (built_ofCalls calls').wellFormed
      have hlt := hbefore id' ((hsame.dangling id').mpr hdangling') hne _ _ (hwf.key_interned first)
        (hwf.key_interned id')
      exact (hleast first ((hsame.dangling first).mp hdangling)).not_gt hlt
    exact hreport
  obtain rfl : first = id := by simpa using (hreports ⟨fun _ _ => Iff.rfl, fun _ => Iff.rfl⟩).symm.trans h
  exact hreports hsame

/-- A report that no spelling changes is settled. -/
theorem settled_of_reproducible (h : ∀ rank id,
    (ofCalls calls).validate shown sort rank = .error (.danglingEdge id) → ∀ calls' sort' rank',
      SameDeclared calls calls' → (ofCalls calls').validate shown sort' rank' = .error (.danglingEdge id)) :
    FirstSettled shown calls := by
  intro hdangling
  obtain ⟨id, hid, hreport, -⟩ := validate_of_dangling shown sort (fun _ => 0) hdangling
  refine ⟨id, hid, fun id' hid' hne => ?_⟩
  by_contra hnot
  -- spell the two the other way round: the report stays, so the two renderings are one
  obtain ⟨spelling, hle⟩ := JobId.exists_of_not_precedes hne.symm hnot
  have hsame := SameDeclared.respell calls spelling
  have hreport' := h _ _ hreport _ sort (fun _ => 0) hsame
  have hge := (least_of_validate hreport').2 id' ((hsame.dangling id').mp hid')
  have hmentions : ∀ {id}, Dangling calls id → Mentions calls id := fun hid => mentions_iff.mpr (.inr hid.1)
  rw [debugKey, debugKey, interned_respell spelling (hmentions hid),
    interned_respell spelling (hmentions hid')] at hge
  have hspelled := JobId.debug_injective shown (hge.antisymm hle)
  exact hne (by rw [← spelling.key_of id', ← hspelled, spelling.key_of])

/-- **`validate` accepts exactly the well-formed graphs**, when petgraph sorts exactly the acyclic ones, and
reports an undeclared endpoint before any cycle. Which one it reports depends on the graph alone exactly where
one of them is rendered before all others, however they are spelled. -/
theorem validates_iff (calls : List DagCall) (shown : Char → Bool)
    (hsort : (∃ order, sort (ofCalls calls).graph = .ok order) ↔ (ofCalls calls).graph.Acyclic) :
    Validates shown sort calls ↔ FirstSettled shown calls := by
  constructor
  · intro h
    exact settled_of_reproducible h.reproducible
  · intro hfirst
    exact {
      ok := validate_ok_iff hsort shown
      dangling := validate_dangling_iff shown sort
      undeclared := fun rank id h => (least_of_validate h).1
      reproducible := fun rank id h calls' sort' rank' => reproducible_of_settled hfirst h
      cycle := fun rank id => declared_of_cycle }

/-- Two edges to jobs that nobody declared: neither has a path, and the report is the first of the two. -/
theorem validates_iff_typos :
    Validates Sample.printable Sample.byAge Sample.typos ∧
      (ofCalls Sample.typos).validate Sample.printable Sample.byAge (fun _ => 0) =
        .error (.danglingEdge (Sample.jobId "biuld")) := by
  have hsorts : Sample.byAge.Sorts (ofCalls Sample.typos).graph := sorts_byAge fun i j hmem => by
    have hedges : (ofCalls Sample.typos).graph.edges = [(0, 2), (0, 1)] := by decide +kernel
    grind
  have htwo : ∀ {id}, Dangling Sample.typos id → id = Sample.jobId "tset" ∨ id = Sample.jobId "biuld" := by
    rintro id ⟨⟨u, v, ⟨call, hcall, hadds⟩, hid⟩, hnot⟩
    have hdeploy : id ≠ Sample.jobId "deploy" := by
      rintro rfl
      exact hnot ⟨_, List.mem_cons_self, rfl⟩
    simp only [Sample.typos, List.mem_cons, List.not_mem_nil, or_false] at hcall
    rcases hcall with rfl | rfl | rfl <;> cases hadds <;> grind [Sample.key_jobId]
  have hfirst : Dangling Sample.typos (Sample.jobId "biuld") := by
    have hadds : AddsEdge Sample.typos (Sample.jobId "deploy") (Sample.jobId "biuld") := by
      unfold AddsEdge
      decide
    refine ⟨⟨_, _, hadds, .inr rfl⟩, ?_⟩
    unfold Declares
    decide
  refine ⟨(validates_iff _ _ hsorts.ok_iff).mpr fun _ => ⟨_, hfirst, fun id hid hne => ?_⟩,
    by decide +kernel⟩
  obtain rfl := (htwo hid).resolve_right hne
  intro s t hs ht
  obtain rfl := Sample.eq_of_key_jobId hs
  obtain rfl := Sample.eq_of_key_jobId ht
  decide +kernel

/-- **Which undeclared endpoint is reported depends on the order of the calls**: a path is rendered as it was
spelled first, and a separator comes before a digit, which comes before a letter. -/
theorem report_by_spelling :
    Sample.byAge.Sorts (ofCalls Sample.files).graph ∧ Sample.files.Perm Sample.files' ∧
      (ofCalls Sample.files).validate Sample.printable Sample.byAge (fun _ => 0) =
        .error (.danglingEdge (Sample.file "z/a").key) ∧
      (ofCalls Sample.files').validate Sample.printable Sample.byAge (fun _ => 0) =
        .error (.danglingEdge (Sample.file "z/0").key) ∧
      ¬ Validates Sample.printable Sample.byAge Sample.files := by
  have hperm : Sample.files.Perm Sample.files' := by decide
  have hreport : (ofCalls Sample.files).validate Sample.printable Sample.byAge (fun _ => 0) =
      .error (.danglingEdge (Sample.file "z/a").key) := by decide +kernel
  have hreport' : (ofCalls Sample.files').validate Sample.printable Sample.byAge (fun _ => 0) =
      .error (.danglingEdge (Sample.file "z/0").key) := by decide +kernel
  refine ⟨?_, hperm, hreport, hreport', fun h => ?_⟩
  · refine sorts_byAge fun i j hmem => ?_
    have hedges : (ofCalls Sample.files).graph.edges = [(0, 3), (1, 2), (0, 2)] := by decide +kernel
    grind
  · have hsame : SameDeclared Sample.files Sample.files' :=
      ⟨fun u v => by simp only [AddsEdge, hperm.mem_iff], fun id => by simp only [Declares, hperm.mem_iff]⟩
    have hstays := h.reproducible _ _ hreport _ Sample.byAge (fun _ => 0) hsame
    rw [hreport'] at hstays
    exact absurd hstays (by decide +kernel)

end Dag

end Shigoto
